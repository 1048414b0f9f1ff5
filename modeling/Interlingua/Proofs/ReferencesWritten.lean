import Interlingua.Proofs.Page.Inline
import Interlingua.Proofs.Shapes
import Interlingua.Proofs.Template.References
import Interlingua.Render.PowerShell

namespace Interlingua

open Template (IsPath Shows Stopping references)

mutual

/-- The names that stand behind a `$`, from left to right. As what a command runs or as the type of
a static member a name is `bare`. -/
def Expr.variables (bare : Bool) : Expr → List String
  | .literal _ | .string _ | .template _ => []
  | .identifier name => if bare then [] else [name]
  | .binary left _ right => left.variables false ++ right.variables false
  | .before _ e | .after _ e | .cast _ e | .grouped e => e.variables false
  | .member target _ isStatic => target.variables isStatic
  | .element target index => target.variables false ++ Argument.allVariables index
  | .call callee arguments => callee.variables true ++ Argument.allVariables arguments
  | .create _ arguments => Argument.allVariables arguments
  | .array _ elements => Expr.allVariables elements
  | .assign target _ value => target.variables false ++ value.variables false
termination_by structural e => e

def Argument.variables : Argument → List String
  | ⟨_, value⟩ => Expr.optVariables value
termination_by structural a => a

def Expr.optVariables : Option Expr → List String
  | none => []
  | some e => e.variables false
termination_by structural e => e

def Expr.allVariables : List Expr → List String
  | [] => []
  | e :: es => e.variables false ++ Expr.allVariables es
termination_by structural es => es

def Argument.allVariables : List Argument → List String
  | [] => []
  | a :: as => a.variables ++ Argument.allVariables as
termination_by structural as => as

end

/-- No text of the expression holds a `$`, its parts apart, and it is no template. -/
def Expr.Quiet : Expr → Prop
  | .literal text | .string text | .identifier text => '$' ∉ text.toList
  | .template _ => False
  | .cast name _ | .member _ name _ | .create name _ => '$' ∉ name.toList
  | .call _ arguments => ∀ a ∈ arguments, ∀ name ∈ a.name, '$' ∉ name.toList
  | .array elementType _ => ∀ name ∈ elementType, '$' ∉ name.toList
  | _ => True

/-- A text that begins where a name ends, and holds no `$`. -/
def breaksOff (text : String) : Bool :=
  !text.toList.contains '$' &&
    match text.toList with
    | ':' :: ':' :: _ => true
    | c :: _ => !Text.isWord c && c != ':'
    | [] => false

theorem not_mem_of_breaksOff {text : String} (h : breaksOff text = true) :
    '$' ∉ text.toList := by
  simp only [breaksOff, Bool.and_eq_true, Bool.not_eq_true'] at h
  simpa using h.1

theorem stopping_of_breaksOff {text : String} (h : breaksOff text = true) (more : List Char) :
    Stopping (text.toList ++ more) := by
  have h := (Bool.and_eq_true_iff.mp h).2
  split at h
  · next cs heq =>
    rw [heq]
    exact Template.stopping_colons _
  · next c cs _ heq =>
    rw [heq]
    simp only [Bool.and_eq_true, Bool.not_eq_true', bne_iff_ne] at h
    exact Template.stopping_cons h.1 h.2 _
  · cases h

/-- In what the steps write just these references are found. -/
def Refers (steps : List Step) (names : List String) : Prop :=
  ∃ text, Inline steps text ∧ Shows text names

/-- Besides, a name in front of it ends there. -/
def Trails (steps : List Step) (names : List String) : Prop :=
  ∃ text, Inline steps text ∧ Shows text names ∧ Stopping text

namespace Refers

variable {xs ys : List Step} {ms ns : List String} {text : String}

theorem write (h : '$' ∉ text.toList) : Refers [.write text] [] :=
  ⟨_, .write text, .of_not_mem h⟩

theorem cons_write (h : '$' ∉ text.toList) (hx : Refers xs ns) :
    Refers (.write text :: xs) ns := by
  obtain ⟨t, hi, hs⟩ := hx
  exact ⟨_, Inline.append (.write text) hi, hs.text_append h⟩

theorem append (hx : Refers xs ms) (hy : Trails ys ns) : Refers (xs ++ ys) (ms ++ ns) := by
  obtain ⟨t, hi, hs⟩ := hx
  obtain ⟨u, hj, ht, hstop⟩ := hy
  exact ⟨t ++ u, hi.append hj, hs.append ht hstop⟩

theorem append_nil (hx : Refers xs ms) (hy : Trails ys []) : Refers (xs ++ ys) ms := by
  have h := hx.append hy
  rwa [List.append_nil] at h

theorem name {name : String} (before : List Char) (ht : text.toList = before ++ ['$'])
    (hb : '$' ∉ before) (h : IsPath name) : Refers [.write text, .write name] [name] := by
  have hi : Inline [.write text, .write name] (text.toList ++ name.toList) :=
    Inline.append (.write text) (.write name)
  rw [ht, List.append_assoc] at hi
  exact ⟨_, hi, .text_append hb (.path h)⟩

end Refers

namespace Trails

variable {xs ys : List Step} {ms ns : List String} {text : String}

theorem nil : Trails [] [] := ⟨[], .nil, .of_not_mem List.not_mem_nil, Template.stopping_nil⟩

theorem refers (h : Trails xs ns) : Refers xs ns := by
  obtain ⟨t, hi, hs, -⟩ := h
  exact ⟨t, hi, hs⟩

theorem write (h : breaksOff text = true) : Trails [.write text] [] := by
  refine ⟨_, .write text, .of_not_mem (not_mem_of_breaksOff h), ?_⟩
  have hstop := stopping_of_breaksOff h []
  rwa [List.append_nil] at hstop

theorem cons_write (h : breaksOff text = true) (hx : Refers xs ns) :
    Trails (.write text :: xs) ns := by
  obtain ⟨t, hi, hs⟩ := hx
  exact ⟨_, Inline.append (.write text) hi, hs.text_append (not_mem_of_breaksOff h),
    stopping_of_breaksOff h t⟩

theorem newline : Trails [.newline] [] :=
  ⟨_, .newline, .of_not_mem (by decide), Template.stopping_cons (by decide) (by decide) []⟩

theorem append (hx : Trails xs ms) (hy : Trails ys ns) : Trails (xs ++ ys) (ms ++ ns) := by
  obtain ⟨t, hi, hs, hstop⟩ := hx
  obtain ⟨u, hj, ht, hstop'⟩ := hy
  exact ⟨t ++ u, hi.append hj, hs.append ht hstop', hstop.append hstop'⟩

end Trails

theorem shows_flatMap {separator : String} (hb : breaksOff separator = true)
    {texts : List (List Char)} {names : List (List String)} (h : List.Forall₂ Shows texts names) :
    Shows (texts.flatMap (separator.toList ++ ·)) names.flatten ∧
      Stopping (texts.flatMap (separator.toList ++ ·)) := by
  induction h with
  | nil => exact ⟨.of_not_mem List.not_mem_nil, Template.stopping_nil⟩
  | @cons t ns texts names ht _ ih =>
    have hstop := stopping_of_breaksOff hb t
    exact ⟨(ht.text_append (not_mem_of_breaksOff hb)).append ih.1 ih.2, hstop.append ih.2⟩

def Listed (items : List (List Step)) (names : List String) : Prop :=
  ∃ parts, List.Forall₂ Refers items parts ∧ parts.flatten = names

namespace Listed

variable {item : List Step} {items : List (List Step)} {ms ns : List String}

theorem nil : Listed [] [] := ⟨[], .nil, rfl⟩

theorem cons (h : Refers item ms) (hs : Listed items ns) : Listed (item :: items) (ms ++ ns) := by
  obtain ⟨parts, hparts, rfl⟩ := hs
  exact ⟨ms :: parts, .cons h hparts, rfl⟩

theorem separated {separator : String} (hb : breaksOff separator = true) (h : Listed items ns) :
    Refers (Step.separated separator items) ns := by
  obtain ⟨parts, hparts, rfl⟩ := h
  have htexts : ∃ texts, List.Forall₂ Inline items texts ∧ List.Forall₂ Shows texts parts := by
    induction hparts with
    | nil => exact ⟨[], .nil, .nil⟩
    | cons h _ ih =>
      obtain ⟨t, hi, hs⟩ := h
      obtain ⟨texts, his, hss⟩ := ih
      exact ⟨t :: texts, .cons hi his, .cons hs hss⟩
  obtain ⟨texts, hi, hs⟩ := htexts
  cases hs with
  | nil =>
    cases hi
    exact Trails.nil.refers
  | cons ht hts =>
    obtain ⟨hshows, hstop⟩ := shows_flatMap hb hts
    exact ⟨_, .separated hi, ht.append hshows hstop⟩

theorem closed {closing : String} (hc : breaksOff closing = true) (h : Listed items ns) :
    Refers (Step.separated ", " items ++ [.write closing]) ns :=
  (h.separated (by decide)).append_nil (.write hc)

end Listed

namespace PowerShell

open Step (separated)

theorem breaksOff_unarySpelling (op : UnaryOperator) : breaksOff (unarySpelling op) = true := by
  cases op <;> decide

theorem not_mem_binarySpelling (op : BinaryOperator) : '$' ∉ (binarySpelling op).toList := by
  cases op <;> decide

theorem not_mem_stringLiteral {value : String} (h : '$' ∉ value.toList) :
    '$' ∉ (String.ofList (stringLiteral value)).toList := by
  rw [String.toList_ofList]
  intro hm
  simp only [stringLiteral, List.mem_append, List.mem_cons, List.mem_flatMap,
    List.not_mem_nil, or_false] at hm
  obtain (hm | ⟨c, hc, hm⟩) | hm := hm
  · exact absurd hm (by decide)
  · split at hm
    · exact absurd hm (by decide)
    · obtain rfl := List.mem_singleton.mp hm
      exact h hc
  · exact absurd hm (by decide)

mutual

/-- In the text of an expression its variables are found. -/
theorem expr_refers (e : Expr) (hq : e.Everywhere Expr.Quiet)
    (hp : ∀ name ∈ e.variables false, IsPath name) : Refers (expr e) (e.variables false) := by
  cases e with
  | literal source => exact .write hq
  | string value => exact .write (not_mem_stringLiteral hq)
  | template body => exact hq.elim
  | identifier name =>
    exact .name [] rfl List.not_mem_nil (hp name (List.mem_singleton_self name))
  | binary left op right =>
    obtain ⟨hl, hr⟩ := List.forall_mem_append.mp hp
    have hright := expr_refers right hq.2.2 hr
    rw [expr, List.append_assoc]
    refine (expr_refers left hq.2.1 hl).append (.cons_write (by decide) ?_)
    exact .cons_write (not_mem_binarySpelling op) (.cons_write (by decide) hright)
  | before op operand =>
    have ho := expr_refers operand hq.2 hp
    exact .cons_write (not_mem_of_breaksOff (breaksOff_unarySpelling op)) ho
  | after op operand =>
    exact (expr_refers operand hq.2 hp).append_nil (.write (breaksOff_unarySpelling op))
  | cast typeName operand =>
    have ho := expr_refers operand hq.2 hp
    exact .cons_write (by decide) (.cons_write hq.1 (.cons_write (by decide) ho))
  | grouped inner =>
    exact .cons_write (by decide) ((expr_refers inner hq.2 hp).append_nil (.write (by decide)))
  | member target name isStatic =>
    obtain ⟨hn, hq⟩ := hq
    have ht := expr_refers target hq
    cases isStatic with
    | false =>
      rw [expr, List.append_assoc]
      exact (ht hp).append_nil (.cons_write (by decide) (.write hn))
    | true =>
      -- A name of a type stands in brackets; nothing else is written bare.
      cases target with
      | identifier typeName =>
        exact .cons_write (by decide) (.cons_write hq (.cons_write (by decide) (.write hn)))
      | _ =>
        have hmember : Trails [.write "::", .write name] [] :=
          .cons_write (by decide) (.write hn)
        rw [expr, List.append_assoc]
        · exact (ht hp).append_nil hmember
        · exact nofun
  | element target index =>
    obtain ⟨-, ht, hi⟩ := hq
    obtain ⟨hpt, hpi⟩ := List.forall_mem_append.mp hp
    rw [expr, List.append_assoc, List.append_assoc]
    refine (expr_refers target ht hpt).append (.cons_write (by decide) ?_)
    exact (values_listed index hi hpi).closed (by decide)
  | call callee passed =>
    obtain ⟨hn, hc, ha⟩ := hq
    obtain ⟨hpc, hpa⟩ := List.forall_mem_append.mp hp
    have hcallee := expr_refers callee hc
    have hcommand := commandArguments_trails passed hn ha hpa
    cases callee with
    | identifier command => exact .cons_write hc hcommand.refers
    | member target name isStatic =>
      rw [expr, List.append_assoc, List.append_assoc]
      refine (hcallee hpc).append (.cons_write (by decide) ?_)
      exact (values_listed passed ha hpa).closed (by decide)
    | _ => exact .cons_write (by decide) ((hcallee hpc).append hcommand)
  | create typeName passed =>
    refine .cons_write (by decide) (.cons_write hq.1 (.cons_write (by decide) ?_))
    exact (values_listed passed hq.2 hp).closed (by decide)
  | array elementType elements =>
    have hes : Refers (separated ", " (exprs elements) ++ [.write ")"]) _ :=
      (exprs_listed elements hq.2 hp).closed (by decide)
    cases elementType with
    | none => exact .cons_write (by decide) hes
    | some name =>
      refine .cons_write (by decide) (.cons_write (hq.1 name rfl) (.cons_write (by decide) ?_))
      exact .cons_write (by decide) hes
  | assign target op value =>
    obtain ⟨hpt, hpv⟩ := List.forall_mem_append.mp hp
    have hv := expr_refers value hq.2.2 hpv
    cases op with
    | none =>
      rw [expr, List.append_assoc, List.append_assoc, List.append_assoc]
      exact (expr_refers target hq.2.1 hpt).append
        (.cons_write (by decide) (.cons_write (by decide) hv))
    | some op =>
      rw [expr, List.append_assoc, List.append_assoc, List.append_assoc]
      refine (expr_refers target hq.2.1 hpt).append (.cons_write (by decide) ?_)
      exact .cons_write (not_mem_binarySpelling op) (.cons_write (by decide) hv)
termination_by structural e

theorem optExpr_refers (v : Option Expr) (hq : Expr.OptEverywhere Expr.Quiet v)
    (hp : ∀ name ∈ Expr.optVariables v, IsPath name) :
    ∀ steps ∈ optExpr v, Refers steps (Expr.optVariables v) := by
  cases v with
  | none => nofun
  | some e =>
    intro steps hs
    cases hs
    exact expr_refers e hq hp
termination_by structural v

theorem value?_refers (a : Argument) (hq : a.Everywhere Expr.Quiet)
    (hp : ∀ name ∈ a.variables, IsPath name) : ∀ steps ∈ value? a, Refers steps a.variables := by
  obtain ⟨name, value⟩ := a
  exact optExpr_refers value hq hp
termination_by structural a

theorem values_listed (as : List Argument) (hq : Argument.AllEverywhere Expr.Quiet as)
    (hp : ∀ name ∈ Argument.allVariables as, IsPath name) :
    Listed (values as) (Argument.allVariables as) := by
  cases as with
  | nil => exact .nil
  | cons a as =>
    obtain ⟨hpa, hpas⟩ := List.forall_mem_append.mp hp
    have ha := value?_refers a hq.1 hpa
    have has := values_listed as hq.2 hpas
    obtain ⟨name, _ | e⟩ := a
    · exact has
    · exact has.cons (ha _ rfl)
termination_by structural as

theorem exprs_listed (es : List Expr) (hq : Expr.AllEverywhere Expr.Quiet es)
    (hp : ∀ name ∈ Expr.allVariables es, IsPath name) :
    Listed (exprs es) (Expr.allVariables es) := by
  cases es with
  | nil => exact .nil
  | cons e es =>
    obtain ⟨hpe, hpes⟩ := List.forall_mem_append.mp hp
    exact (exprs_listed es hq.2 hpes).cons (expr_refers e hq.1 hpe)
termination_by structural es

theorem commandValue_trails (v : Option Expr) (hq : Expr.OptEverywhere Expr.Quiet v)
    (hp : ∀ name ∈ Expr.optVariables v, IsPath name) :
    Trails (commandValue v) (Expr.optVariables v) := by
  cases v with
  | none => exact .nil
  | some e =>
    have he := expr_refers e hq hp
    refine .cons_write (by decide) ?_
    split
    · exact he
    · have hclose : Trails [.write ")"] [] := .write (by decide)
      exact .cons_write (by decide) (he.append_nil hclose)
termination_by structural v

theorem commandArgument_trails (a : Argument) (hn : ∀ name ∈ a.name, '$' ∉ name.toList)
    (hq : a.Everywhere Expr.Quiet) (hp : ∀ name ∈ a.variables, IsPath name) :
    Trails (commandArgument a) a.variables := by
  obtain ⟨name, value⟩ := a
  have hv := commandValue_trails value hq hp
  cases name with
  | none => exact hv
  | some name =>
    have hname : Trails [.write " -", .write name] [] :=
      .cons_write (by decide) (.write (hn name rfl))
    exact hname.append hv
termination_by structural a

theorem commandArguments_trails (as : List Argument)
    (hn : ∀ a ∈ as, ∀ name ∈ a.name, '$' ∉ name.toList)
    (hq : Argument.AllEverywhere Expr.Quiet as)
    (hp : ∀ name ∈ Argument.allVariables as, IsPath name) :
    Trails (commandArguments as) (Argument.allVariables as) := by
  cases as with
  | nil => exact .nil
  | cons a as =>
    obtain ⟨hna, hnas⟩ := List.forall_mem_cons.mp hn
    obtain ⟨hpa, hpas⟩ := List.forall_mem_append.mp hp
    exact (commandArgument_trails a hna hq.1 hpa).append
      (commandArguments_trails as hnas hq.2 hpas)
termination_by structural as

end

theorem terminator_trails (ended : Bool) : Trails (terminator ended ++ [.newline]) [] := by
  cases ended with
  | false => exact .newline
  | true => exact (Trails.write (by decide)).append .newline

theorem effect_refers (ended : Bool) {e : Expr} (hq : e.Everywhere Expr.Quiet)
    (hp : ∀ name ∈ e.variables false, IsPath name) :
    Refers (node ended (.stmt (.expr e))) (e.variables false) := by
  change Refers (expr e ++ terminator ended ++ [.newline]) _
  rw [List.append_assoc]
  exact (expr_refers e hq hp).append_nil (terminator_trails ended)

theorem declare_refers (ended : Bool) {typeName name : String} {e : Expr}
    (ht : '$' ∉ typeName.toList) (hn : IsPath name) (hq : e.Everywhere Expr.Quiet)
    (hp : ∀ name ∈ e.variables false, IsPath name) :
    Refers (node ended (.stmt (.declare typeName name e))) (name :: e.variables false) := by
  have he := (expr_refers e hq hp).append_nil (terminator_trails ended)
  have hvalue : Trails (.write " = " :: (expr e ++ (terminator ended ++ [.newline])))
      (e.variables false) := .cons_write (by decide) he
  have hname : Refers [.write "]$", .write name] [name] := .name [']'] rfl (by decide) hn
  change Refers ([.write "[", .write typeName, .write "]$", .write name, .write " = "] ++
    expr e ++ terminator ended ++ [.newline]) _
  rw [List.append_assoc, List.append_assoc]
  exact .cons_write (by decide) (.cons_write ht (hname.append hvalue))

theorem references_render {layout : Layout} {n : Node} {names : List String}
    (h : Refers (node (layout.terminate.getD false) n) names) :
    references (render layout n) = names := by
  obtain ⟨text, hi, hs⟩ := h
  rw [Template.references_eq_targets, render, hi.toList_layOut, hs.targets_eq]

end PowerShell

end Interlingua
