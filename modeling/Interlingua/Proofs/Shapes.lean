import Mathlib.Data.List.Chain
import Interlingua.Proofs.Declarations

namespace Interlingua

section

variable (p : Expr → Prop)

mutual

def Expr.Everywhere : Expr → Prop
  | .literal source => p (.literal source)
  | .string value => p (.string value)
  | .template body => p (.template body)
  | .identifier name => p (.identifier name)
  | .binary left op right => p (.binary left op right) ∧ left.Everywhere ∧ right.Everywhere
  | .before op e => p (.before op e) ∧ e.Everywhere
  | .after op e => p (.after op e) ∧ e.Everywhere
  | .cast typeName e => p (.cast typeName e) ∧ e.Everywhere
  | .grouped inner => p (.grouped inner) ∧ inner.Everywhere
  | .member target name isStatic => p (.member target name isStatic) ∧ target.Everywhere
  | .element target index =>
    p (.element target index) ∧ target.Everywhere ∧ Argument.AllEverywhere index
  | .call callee arguments =>
    p (.call callee arguments) ∧ callee.Everywhere ∧ Argument.AllEverywhere arguments
  | .create typeName arguments => p (.create typeName arguments) ∧ Argument.AllEverywhere arguments
  | .array elementType elements => p (.array elementType elements) ∧ Expr.AllEverywhere elements
  | .assign target op value => p (.assign target op value) ∧ target.Everywhere ∧ value.Everywhere
termination_by structural e => e

def Argument.Everywhere : Argument → Prop
  | ⟨_, value⟩ => Expr.OptEverywhere value
termination_by structural a => a

def Expr.OptEverywhere : Option Expr → Prop
  | none => True
  | some e => e.Everywhere
termination_by structural e => e

def Expr.AllEverywhere : List Expr → Prop
  | [] => True
  | e :: es => e.Everywhere ∧ Expr.AllEverywhere es
termination_by structural es => es

def Argument.AllEverywhere : List Argument → Prop
  | [] => True
  | a :: as => a.Everywhere ∧ Argument.AllEverywhere as
termination_by structural as => as

end

variable (q : Signature → Prop)

/-- The signature has the property `q` and the arguments of its attributes have `p`. -/
def Signature.Everywhere (s : Signature) : Prop :=
  q s ∧ ∀ a ∈ s.attributes, Argument.AllEverywhere p a.arguments

mutual

/-- Every expression in the statement has the property `p` and every method in it `q`. -/
def Stmt.Everywhere : Stmt → Prop
  | .expr e => e.Everywhere p
  | .block body => Stmt.AllEverywhere body
  | .declare _ _ initializer => initializer.Everywhere p
  | .method signature body => signature.Everywhere p q ∧ Stmt.AllEverywhere body
  | .conditional condition body rest =>
    condition.Everywhere p ∧ body.Everywhere ∧ rest.Everywhere
  | .forLoop initializer condition step body =>
    Stmt.OptEverywhere initializer ∧ Expr.OptEverywhere p condition ∧
      Expr.OptEverywhere p step ∧ body.Everywhere
  | .forEach _ iterable body => iterable.Everywhere p ∧ body.Everywhere
  | .whileLoop condition body => condition.Everywhere p ∧ body.Everywhere
  | .breakLoop | .continueLoop => True
  | .ret value => Expr.OptEverywhere p value
  | .guarded body catches final =>
    Stmt.AllEverywhere body ∧ Catch.AllEverywhere catches ∧ Stmt.OptAllEverywhere final
termination_by structural s => s

def Else.Everywhere : Else → Prop
  | .absent => True
  | .elseIf condition body rest => condition.Everywhere p ∧ body.Everywhere ∧ rest.Everywhere
  | .block body => Stmt.AllEverywhere body
termination_by structural r => r

def Catch.Everywhere : Catch → Prop
  | ⟨_, body⟩ => Stmt.AllEverywhere body
termination_by structural c => c

def Stmt.OptEverywhere : Option Stmt → Prop
  | none => True
  | some s => s.Everywhere
termination_by structural s => s

def Stmt.AllEverywhere : List Stmt → Prop
  | [] => True
  | s :: ss => s.Everywhere ∧ Stmt.AllEverywhere ss
termination_by structural ss => ss

def Stmt.OptAllEverywhere : Option (List Stmt) → Prop
  | none => True
  | some body => Stmt.AllEverywhere body
termination_by structural b => b

def Catch.AllEverywhere : List Catch → Prop
  | [] => True
  | c :: cs => c.Everywhere ∧ Catch.AllEverywhere cs
termination_by structural cs => cs

end

def Node.Everywhere : Node → Prop
  | .stmt s => s.Everywhere p q
  | .expr e => e.Everywhere p

end

section

variable {p : Expr → Prop} {q : Signature → Prop}

theorem Expr.allEverywhere_iff {es : List Expr} :
    Expr.AllEverywhere p es ↔ ∀ e ∈ es, e.Everywhere p := by
  induction es with
  | nil => simp [Expr.AllEverywhere]
  | cons e es ih => simp [Expr.AllEverywhere, ih]

theorem Argument.everywhere_iff {a : Argument} :
    a.Everywhere p ↔ Expr.OptEverywhere p a.value := by
  cases a
  exact Iff.rfl

theorem Argument.allEverywhere_iff {as : List Argument} :
    Argument.AllEverywhere p as ↔ ∀ a ∈ as, Expr.OptEverywhere p a.value := by
  induction as with
  | nil => simp [Argument.AllEverywhere]
  | cons a as ih => simp [Argument.AllEverywhere, Argument.everywhere_iff, ih]

theorem Argument.allEverywhere_positional {es : List Expr} (h : Expr.AllEverywhere p es) :
    Argument.AllEverywhere p (es.map .positional) := by
  rw [Argument.allEverywhere_iff]
  intro a ha
  obtain ⟨e, he, rfl⟩ := List.mem_map.mp ha
  exact Expr.allEverywhere_iff.mp h e he

theorem Argument.allEverywhere_attachValues {as : List Argument}
    (h : Argument.AllEverywhere p as) : Argument.AllEverywhere p (attachValues as) := by
  fun_induction attachValues as with
  | case1 => exact h
  | case2 => exact h
  | case3 a next rest _ ih => exact ⟨Argument.everywhere_iff.mp h.2.1, ih h.2.2⟩
  | case4 a next rest _ ih => exact ⟨h.1, ih h.2⟩

theorem Stmt.allEverywhere_append {ss ts : List Stmt} :
    Stmt.AllEverywhere p q (ss ++ ts) ↔
      Stmt.AllEverywhere p q ss ∧ Stmt.AllEverywhere p q ts := by
  induction ss with
  | nil => simp [Stmt.AllEverywhere]
  | cons s ss ih => simp [Stmt.AllEverywhere, ih, and_assoc]

theorem Stmt.allEverywhere_statements {s : Stmt} (h : s.Everywhere p q) :
    Stmt.AllEverywhere p q s.statements := by
  cases s with
  | block body => exact h
  | _ => exact ⟨h, trivial⟩

def Link.Everywhere (p : Expr → Prop) (q : Signature → Prop) (link : Link) : Prop :=
  link.condition.Everywhere p ∧ link.body.Everywhere p q

theorem Else.everywhere_ofLinks {final : Option (List Stmt)} {links : List Link}
    (hl : ∀ l ∈ links, l.Everywhere p q) (hf : Stmt.OptAllEverywhere p q final) :
    (Else.ofLinks final links).Everywhere p q := by
  induction links with
  | nil =>
    cases final with
    | none => trivial
    | some body => exact hf
  | cons link links ih =>
    obtain ⟨hlink, hlinks⟩ := List.forall_mem_cons.mp hl
    exact ⟨hlink.1, hlink.2, ih hlinks⟩

theorem Catch.allEverywhere_append {cs ds : List Catch} :
    Catch.AllEverywhere p q (cs ++ ds) ↔
      Catch.AllEverywhere p q cs ∧ Catch.AllEverywhere p q ds := by
  induction cs with
  | nil => simp [Catch.AllEverywhere]
  | cons c cs ih => simp [Catch.AllEverywhere, ih, and_assoc]

end

def Argument.IsPositional (a : Argument) : Prop := ∃ e, a = .positional e

def Argument.IsGiven (a : Argument) : Prop := a.name.isSome ∨ a.value.isSome

/-- Every argument is given, and no name without a value stands in front of one without a name. -/
def Argument.AllSettled (as : List Argument) : Prop :=
  (∀ a ∈ as, a.IsGiven) ∧ as.IsChain fun a b => ¬ (a.lacksValue ∧ b.isUnnamed)

/-- The operators that an assignment applies, besides tokens that stand for none. -/
def BinaryOperator.IsCompound (op : BinaryOperator) : Prop :=
  op ∈ [.add, .subtract, .multiply, .divide, .modulo, .unknown]

instance (op : BinaryOperator) : Decidable op.IsCompound :=
  inferInstanceAs (Decidable (op ∈ _))

/-- The shape of an expression, its parts apart. -/
def Expr.Regular : Expr → Prop
  | .element _ index => Argument.AllSettled index ∧ ∃ e, index = [.positional e]
  | .call _ arguments => Argument.AllSettled arguments
  | .create _ arguments => Argument.AllSettled arguments ∧ ∀ a ∈ arguments, a.IsPositional
  | .array elementType _ => elementType = none
  | .assign _ op _ => ∀ o, op = some o → o.IsCompound
  | _ => True

theorem Argument.allSettled_of_positional {as : List Argument} (h : ∀ a ∈ as, a.IsPositional) :
    AllSettled as := by
  refine ⟨fun a ha => ?_, ?_⟩
  · obtain ⟨e, rfl⟩ := h a ha
    exact .inr rfl
  · refine List.Pairwise.isChain (List.pairwise_of_forall_mem_list fun a ha b _ hab => ?_)
    obtain ⟨e, rfl⟩ := h a ha
    exact Bool.false_ne_true hab.1

theorem Argument.isPositional_of_mem_map {es : List Expr} :
    ∀ a ∈ es.map positional, a.IsPositional := by
  intro a ha
  obtain ⟨e, -, rfl⟩ := List.mem_map.mp ha
  exact ⟨e, rfl⟩

theorem Expr.everywhere_indexed {target index : Expr} (ht : target.Everywhere Regular)
    (hi : index.Everywhere Regular) : (indexed target index).Everywhere Regular := by
  have hp : ∀ a ∈ [index].map Argument.positional, a.IsPositional :=
    Argument.isPositional_of_mem_map
  exact ⟨⟨Argument.allSettled_of_positional hp, index, rfl⟩, ht, hi, trivial⟩

theorem isUnnamed_of_mem_head?_attachValues {a b : Argument} {as : List Argument}
    (h : b ∈ (attachValues (a :: as)).head?) : b.isUnnamed = a.isUnnamed := by
  cases as with
  | nil =>
    obtain rfl : a = b := by simpa [attachValues] using h
    rfl
  | cons next rest =>
    rw [attachValues] at h
    split at h <;> obtain rfl := Option.some.inj h <;> rfl

theorem allSettled_attachValues {as : List Argument} (h : ∀ a ∈ as, a.IsGiven) :
    Argument.AllSettled (attachValues as) := by
  fun_induction attachValues as with
  | case1 => exact ⟨h, .nil⟩
  | case2 a => exact ⟨h, .singleton a⟩
  | case3 a next rest hattach ih =>
    obtain ⟨ha, h⟩ := List.forall_mem_cons.mp h
    obtain ⟨hnext, h⟩ := List.forall_mem_cons.mp h
    obtain ⟨hlacks, hunnamed⟩ := Bool.and_eq_true_iff.mp hattach
    -- The value of an unnamed argument is there, so the name is complete.
    have hvalue : next.value.isSome := by
      obtain hn | hv := hnext
      · simp [Option.isNone_iff_eq_none.mp hunnamed] at hn
      · exact hv
    refine ⟨List.forall_mem_cons.mpr ⟨.inr hvalue, (ih h).1⟩,
      List.isChain_cons.mpr ⟨fun b _ hb => ?_, (ih h).2⟩⟩
    simp [Argument.lacksValue, Option.isSome_iff_ne_none.mp hvalue] at hb
  | case4 a next rest hattach ih =>
    obtain ⟨ha, h⟩ := List.forall_mem_cons.mp h
    refine ⟨List.forall_mem_cons.mpr ⟨ha, (ih h).1⟩,
      List.isChain_cons.mpr ⟨fun b hb hab => hattach ?_, (ih h).2⟩⟩
    rw [isUnnamed_of_mem_head?_attachValues hb] at hab
    exact Bool.and_eq_true_iff.mpr hab

structure Signature.Regular (policy : ReadPolicy) (s : Signature) : Prop where
  modifiers : s.modifiers = ["public"]
  attributes : s.attributes = []
  names : ∀ p ∈ s.parameters, p.name.toList.head? ≠ some '$'
  distinct : policy.onDuplicate = .keepLast → DistinctNames s.parameters

namespace Host

theorem everywhere_collapse {p : Expr → Prop} {q : Signature → Prop} {ss : List Stmt}
    (h : Stmt.AllEverywhere p q ss) : (collapse ss).Everywhere p q := by
  match ss with
  | [s] => exact h.1
  | [] | _ :: _ :: _ => exact h

theorem allEverywhere_catchesOf {p : Expr → Prop} {q : Signature → Prop} {types : List String}
    {body : List Stmt} (h : Stmt.AllEverywhere p q body) :
    Catch.AllEverywhere p q (catchesOf types body) := by
  have copies (ts : List String) :
      Catch.AllEverywhere p q (ts.map fun name => ⟨some name, body⟩) := by
    induction ts with
    | nil => trivial
    | cons t ts ih => exact ⟨h, ih⟩
  cases types with
  | nil => exact ⟨h, trivial⟩
  | cons t ts => exact copies (t :: ts)

theorem allEverywhere_flatten {p : Expr → Prop} {es : List Expr} (h : Expr.AllEverywhere p es) :
    Expr.AllEverywhere p (flatten es) := by
  obtain hes | hes := flatten_cases es
  · rw [hes] at h
    exact h.1.2
  · rwa [hes]

theorem isPositional_of_mem_spread {value : Option Expr} : ∀ a ∈ spread value, a.IsPositional := by
  cases value with
  | none => nofun
  | some e =>
    simp only [spread]
    split
    · exact Argument.isPositional_of_mem_map
    · change ∀ a ∈ [e.ungrouped].map Argument.positional, a.IsPositional
      exact Argument.isPositional_of_mem_map

section

variable {p : Expr → Prop}

theorem allEverywhere_spread {value : Option Expr} (h : Expr.OptEverywhere p value) :
    Argument.AllEverywhere p (spread value) := by
  cases value with
  | none => trivial
  | some e =>
    have he : e.ungrouped.Everywhere p := Expr.ungrouped_of (fun _ hi => hi.2) h
    simp only [spread]
    split
    · next elements heq =>
      rw [heq] at he
      exact Argument.allEverywhere_positional he.2
    · exact ⟨he, trivial⟩

theorem allEverywhere_positionalValues {arguments : List Argument}
    (h : Argument.AllEverywhere p arguments) :
    Expr.AllEverywhere p (positionalValues arguments) := by
  rw [Expr.allEverywhere_iff]
  intro e he
  obtain ⟨a, ha, hv⟩ := List.mem_filterMap.mp he
  have hk := Argument.allEverywhere_iff.mp h a (List.mem_filter.mp ha).1
  rwa [hv] at hk

theorem everywhere_namedValue {arguments : List Argument} {name : String} {e : Expr}
    (ha : Argument.AllEverywhere p arguments) (h : namedValue arguments name = some e) :
    e.Everywhere p := by
  obtain ⟨a, hf, hv⟩ := Option.bind_eq_some_iff.mp h
  have hk := Argument.allEverywhere_iff.mp ha a (List.mem_of_find?_eq_some hf)
  rwa [hv] at hk

theorem everywhere_bindValue {arguments : List Argument} {positional : List Expr} (name : String)
    (ha : Argument.AllEverywhere p arguments) (hp : Expr.AllEverywhere p positional) :
    Expr.OptEverywhere p (bindValue arguments name positional).1 ∧
      Expr.AllEverywhere p (bindValue arguments name positional).2 := by
  unfold bindValue
  split
  · next e he => exact ⟨everywhere_namedValue ha he, hp⟩
  · cases positional with
    | nil => exact ⟨trivial, trivial⟩
    | cons e es => exact hp

end

theorem everywhere_createdObject {arguments : List Argument} {e : Expr}
    (ha : Argument.AllEverywhere Expr.Regular arguments) (h : createdObject arguments = some e) :
    e.Everywhere Expr.Regular := by
  have htype := everywhere_bindValue "TypeName" ha (allEverywhere_positionalValues ha)
  unfold createdObject at h
  split at h
  · split at h
    · next typeName positional ht =>
      rw [ht] at htype
      have hlist := everywhere_bindValue "ArgumentList" ha htype.2
      split at h
      · next value hv =>
        rw [hv] at hlist
        cases h
        have hpositional : ∀ a ∈ spread value, a.IsPositional := isPositional_of_mem_spread
        exact ⟨⟨Argument.allSettled_of_positional hpositional, hpositional⟩,
          allEverywhere_spread hlist.1⟩
      · cases h
    · cases h
  · cases h

theorem everywhere_commandExpr {callee : Expr} {arguments : List Argument}
    (hs : Argument.AllSettled arguments) (hc : callee.Everywhere Expr.Regular)
    (ha : Argument.AllEverywhere Expr.Regular arguments) :
    (commandExpr ⟨callee, arguments⟩).Everywhere Expr.Regular := by
  unfold commandExpr
  split
  · cases ho : createdObject arguments with
    | none => exact ⟨hs, hc, ha⟩
    | some e => exact everywhere_createdObject ha ho
  · exact ⟨hs, hc, ha⟩

theorem Token.isCompound_compound (token : String) : (compound token).IsCompound := by
  have htable : ∀ entry ∈ compoundTable, entry.2.IsCompound := by decide
  unfold compound
  cases h : compoundTable.lookup token with
  | none => decide
  | some op =>
    obtain ⟨before, after, htoken, -⟩ := List.lookup_eq_some_iff.mp h
    exact htable (token, op) (by simp [htoken])

theorem ParamDecl.head?_name_toParameter (p : ParamDecl) :
    p.toParameter.name.toList.head? ≠ some '$' := by
  intro h
  have hdrop := List.head?_dropWhile_not (· = '$') p.name.toList
  rw [ParamDecl.toParameter, String.toList_ofList] at h
  rw [h] at hdrop
  simp at hdrop

theorem mem_of_mem_settleDuplicates {policy : ReadPolicy} {ps : List Parameter} {p : Parameter}
    (h : p ∈ settleDuplicates policy ps) : p ∈ ps := by
  unfold settleDuplicates at h
  split at h
  · exact h
  · rw [foldl_redeclare] at h
    exact (lastDeclared_sublist ps).subset h

theorem distinctNames_settleDuplicates {policy : ReadPolicy} (h : policy.onDuplicate = .keepLast)
    (ps : List Parameter) : DistinctNames (settleDuplicates policy ps) := by
  simp only [settleDuplicates, h, foldl_redeclare]
  exact distinctNames_lastDeclared ps

theorem regular_signature (policy : ReadPolicy) (name : String) (declared : List ParamDecl) :
    Signature.Regular policy
      ⟨name, settleDuplicates policy (declared.map (·.toParameter)), ["public"], []⟩ where
  modifiers := rfl
  attributes := rfl
  names p hp := by
    obtain ⟨d, -, rfl⟩ := List.mem_map.mp (mem_of_mem_settleDuplicates hp)
    exact d.head?_name_toParameter
  distinct h := distinctNames_settleDuplicates h _

end Host

end Interlingua
