import Interlingua.Host.Conversion

namespace Interlingua

mutual

/-- None of its operators is the unknown one. -/
def Expr.Known : Expr → Prop
  | .literal _ | .string _ | .template _ | .identifier _ => True
  | .binary left op right => op ≠ .unknown ∧ left.Known ∧ right.Known
  | .before op e | .after op e => op ≠ .unknown ∧ e.Known
  | .cast _ e | .grouped e | .member e _ _ => e.Known
  | .element target index => target.Known ∧ Argument.AllKnown index
  | .call callee arguments => callee.Known ∧ Argument.AllKnown arguments
  | .create _ arguments => Argument.AllKnown arguments
  | .array _ elements => Expr.AllKnown elements
  | .assign target op value => op ≠ some .unknown ∧ target.Known ∧ value.Known
termination_by structural e => e

def Argument.Known : Argument → Prop
  | ⟨_, value⟩ => Expr.OptKnown value
termination_by structural a => a

def Expr.OptKnown : Option Expr → Prop
  | none => True
  | some e => e.Known
termination_by structural e => e

def Expr.AllKnown : List Expr → Prop
  | [] => True
  | e :: es => e.Known ∧ Expr.AllKnown es
termination_by structural es => es

def Argument.AllKnown : List Argument → Prop
  | [] => True
  | a :: as => a.Known ∧ Argument.AllKnown as
termination_by structural as => as

end

def Signature.Known (s : Signature) : Prop := ∀ a ∈ s.attributes, Argument.AllKnown a.arguments

mutual

def Stmt.Known : Stmt → Prop
  | .expr e => e.Known
  | .block body => Stmt.AllKnown body
  | .declare _ _ initializer => initializer.Known
  | .method signature body => signature.Known ∧ Stmt.AllKnown body
  | .conditional condition body rest => condition.Known ∧ body.Known ∧ rest.Known
  | .forLoop initializer condition step body =>
    Stmt.OptKnown initializer ∧ Expr.OptKnown condition ∧ Expr.OptKnown step ∧ body.Known
  | .forEach _ iterable body => iterable.Known ∧ body.Known
  | .whileLoop condition body => condition.Known ∧ body.Known
  | .breakLoop | .continueLoop => True
  | .ret value => Expr.OptKnown value
  | .guarded body catches final =>
    Stmt.AllKnown body ∧ Catch.AllKnown catches ∧ Stmt.OptAllKnown final
termination_by structural s => s

def Else.Known : Else → Prop
  | .absent => True
  | .elseIf condition body rest => condition.Known ∧ body.Known ∧ rest.Known
  | .block body => Stmt.AllKnown body
termination_by structural r => r

def Catch.Known : Catch → Prop
  | ⟨_, body⟩ => Stmt.AllKnown body
termination_by structural c => c

def Stmt.OptKnown : Option Stmt → Prop
  | none => True
  | some s => s.Known
termination_by structural s => s

def Stmt.AllKnown : List Stmt → Prop
  | [] => True
  | s :: ss => s.Known ∧ Stmt.AllKnown ss
termination_by structural ss => ss

def Stmt.OptAllKnown : Option (List Stmt) → Prop
  | none => True
  | some body => Stmt.AllKnown body
termination_by structural b => b

def Catch.AllKnown : List Catch → Prop
  | [] => True
  | c :: cs => c.Known ∧ Catch.AllKnown cs
termination_by structural cs => cs

end

def Node.Known : Node → Prop
  | .stmt s => s.Known
  | .expr e => e.Known

theorem Expr.allKnown_iff {es : List Expr} : Expr.AllKnown es ↔ ∀ e ∈ es, e.Known := by
  induction es with
  | nil => simp [Expr.AllKnown]
  | cons e es ih => simp [Expr.AllKnown, ih]

theorem Argument.known_iff {a : Argument} : a.Known ↔ Expr.OptKnown a.value := by
  cases a
  exact Iff.rfl

theorem Argument.allKnown_iff {as : List Argument} :
    Argument.AllKnown as ↔ ∀ a ∈ as, Expr.OptKnown a.value := by
  induction as with
  | nil => simp [Argument.AllKnown]
  | cons a as ih => simp [Argument.AllKnown, Argument.known_iff, ih]

theorem Argument.allKnown_positional {es : List Expr} (h : Expr.AllKnown es) :
    Argument.AllKnown (es.map .positional) := by
  rw [Argument.allKnown_iff]
  intro a ha
  obtain ⟨e, he, rfl⟩ := List.mem_map.mp ha
  exact Expr.allKnown_iff.mp h e he

theorem Argument.allKnown_attachValues {as : List Argument} (h : Argument.AllKnown as) :
    Argument.AllKnown (attachValues as) := by
  fun_induction attachValues as with
  | case1 => exact h
  | case2 => exact h
  | case3 a next rest _ ih => exact ⟨Argument.known_iff.mp h.2.1, ih h.2.2⟩
  | case4 a next rest _ ih => exact ⟨h.1, ih h.2⟩

theorem Stmt.allKnown_statements {s : Stmt} (h : s.Known) : Stmt.AllKnown s.statements := by
  cases s with
  | block body => exact h
  | _ => exact ⟨h, trivial⟩

def Link.Known (link : Link) : Prop := link.condition.Known ∧ link.body.Known

theorem Else.known_ofLinks {final : Option (List Stmt)} {links : List Link}
    (hl : ∀ l ∈ links, l.Known) (hf : Stmt.OptAllKnown final) :
    (Else.ofLinks final links).Known := by
  induction links with
  | nil =>
    cases final with
    | none => trivial
    | some body => exact hf
  | cons link links ih =>
    obtain ⟨hlink, hlinks⟩ := List.forall_mem_cons.mp hl
    exact ⟨hlink.1, hlink.2, ih hlinks⟩

theorem Catch.allKnown_append {cs ds : List Catch} :
    Catch.AllKnown (cs ++ ds) ↔ Catch.AllKnown cs ∧ Catch.AllKnown ds := by
  induction cs with
  | nil => simp [Catch.AllKnown]
  | cons c cs ih => simp [Catch.AllKnown, ih, and_assoc]

namespace Host

/-- The side of a tree on which a token is an operator. Each has a table of its own. -/
inductive Position where
  | binary | unary | assignment
deriving DecidableEq

structure OperatorUse where
  position : Position
  token : String
  extent : Extent

/-- The token is in the table for its position. A plain assignment needs no operator. -/
def OperatorUse.isMapped (u : OperatorUse) : Bool :=
  match u.position with
  | .binary => (Token.binaryTable.map (·.1)).contains u.token
  | .unary => (Token.unaryTable.map (·.1)).contains u.token
  | .assignment => u.token = "Equals" || (Token.compoundTable.map (·.1)).contains u.token

def OperatorUse.report (u : OperatorUse) : Diagnostic := .unknownOperator u.token u.extent

mutual

/-- The operators of a tree: one with two operands between those of its operands, one with a
single operand before those of its operand, all others from left to right. -/
def Ast.operators : Ast → List OperatorUse
  | ⟨extent, kind⟩ => kind.operators extent
termination_by structural a => a

def Kind.operators (extent : Extent) : Kind → List OperatorUse
  | .assignment left token right =>
    left.operators ++ ⟨.assignment, token, extent⟩ :: right.operators
  | .binary left token right => left.operators ++ ⟨.binary, token, extent⟩ :: right.operators
  | .unary token child => ⟨.unary, token, extent⟩ :: child.operators
  | .scriptBlock _ children | .statementBlock children | .pipeline children | .command children
  | .subExpression children | .arrayLiteral children | .arrayExpression children =>
    Ast.allOperators children
  | .commandExpression child | .convert _ child | .member child _ _ | .paren child =>
    child.operators
  | .commandParameter _ argument => Ast.optOperators argument
  | .ifStatement clauses elseClause =>
    IfClause.allOperators clauses ++ Ast.optOperators elseClause
  | .whileStatement condition body | .doWhile condition body | .doUntil condition body =>
    condition.operators ++ body.operators
  | .forStatement initializer condition step body =>
    Ast.optOperators initializer ++
      (Ast.optOperators condition ++ (Ast.optOperators step ++ body.operators))
  | .forEachStatement item condition body =>
    item.operators ++ (condition.operators ++ body.operators)
  | .returnStatement pipeline | .throwStatement pipeline => Ast.optOperators pipeline
  | .tryStatement body catches final =>
    body.operators ++ (CatchClause.allOperators catches ++ Ast.optOperators final)
  | .function _ _ body => body.operators
  | .index target index => target.operators ++ index.operators
  | .invokeMember expression _ arguments _ => expression.operators ++ Ast.allOperators arguments
  | .constant _ | .stringConstant _ | .expandableString _ | .var _ | .typeExpression _
  | .breakStatement | .continueStatement | .parameter .. | .switchStatement | .hashtable
  | .scriptBlockExpression | .unknown => []
termination_by structural k => k

def Ast.optOperators : Option Ast → List OperatorUse
  | none => []
  | some a => a.operators
termination_by structural a => a

def Ast.allOperators : List Ast → List OperatorUse
  | [] => []
  | a :: as => a.operators ++ Ast.allOperators as
termination_by structural as => as

def IfClause.operators : IfClause → List OperatorUse
  | ⟨condition, body⟩ => condition.operators ++ body.operators
termination_by structural c => c

def IfClause.allOperators : List IfClause → List OperatorUse
  | [] => []
  | c :: cs => c.operators ++ IfClause.allOperators cs
termination_by structural cs => cs

/-- The body counts once, however many types it stands for. -/
def CatchClause.operators : CatchClause → List OperatorUse
  | ⟨_, _, body⟩ => body.operators
termination_by structural c => c

def CatchClause.allOperators : List CatchClause → List OperatorUse
  | [] => []
  | c :: cs => c.operators ++ CatchClause.allOperators cs
termination_by structural cs => cs

end

theorem Ast.allOperators_singleton (a : Ast) : Ast.allOperators [a] = a.operators :=
  List.append_nil _

/-- Where a property tells the entries of a table from its default, the tokens with the property
are those that are listed. -/
theorem getD_lookup_eq_contains {β : Type} (table : List (String × β)) (default : β)
    (p : β → Bool) (ht : ∀ entry ∈ table, p entry.2) (hd : p default = false) (token : String) :
    p ((table.lookup token).getD default) = (table.map (·.1)).contains token := by
  induction table with
  | nil => exact hd
  | cons entry table ih =>
    obtain ⟨hentry, htable⟩ := List.forall_mem_cons.mp ht
    obtain ⟨name, value⟩ := entry
    have ih := ih htable
    by_cases h : token = name
    · simp [h, hentry]
    · have hne : (token == name) = false := beq_false_of_ne h
      simp [List.lookup_cons, hne, h, ih]

theorem OperatorUse.isMapped_binary (token : String) (extent : Extent) :
    OperatorUse.isMapped ⟨.binary, token, extent⟩ = (Token.binary token != .unknown) :=
  (getD_lookup_eq_contains Token.binaryTable .unknown (· != .unknown) (by decide) rfl token).symm

theorem OperatorUse.isMapped_unary (token : String) (extent : Extent) :
    OperatorUse.isMapped ⟨.unary, token, extent⟩ = ((Token.unary token).1 != .unknown) :=
  (getD_lookup_eq_contains Token.unaryTable (.unknown, .before) (fun entry => entry.1 != .unknown)
    (by decide) rfl token).symm

theorem OperatorUse.isMapped_equals (extent : Extent) :
    OperatorUse.isMapped ⟨.assignment, "Equals", extent⟩ := by
  simp [isMapped]

theorem OperatorUse.isMapped_assignment {token : String} (h : token ≠ "Equals") (extent : Extent) :
    OperatorUse.isMapped ⟨.assignment, token, extent⟩ = (Token.compound token != .unknown) := by
  have hc := getD_lookup_eq_contains Token.compoundTable .unknown (· != .unknown) (by decide) rfl
    token
  simp [isMapped, h, Token.compound, hc]

theorem Ast.operators_of_declaration? {left : Ast} {operator : String}
    {declared : String × String} (h : left.declaration? operator = some declared) :
    operator = "Equals" ∧ left.operators = [] := by
  obtain ⟨hop, place, inner, rfl⟩ := Ast.eq_of_declaration? h
  exact ⟨hop, rfl⟩

theorem known_collapse {ss : List Stmt} (h : Stmt.AllKnown ss) : (collapse ss).Known := by
  match ss with
  | [s] => exact h.1
  | [] | _ :: _ :: _ => exact h

theorem allKnown_flatten {es : List Expr} (h : Expr.AllKnown es) : Expr.AllKnown (flatten es) := by
  obtain hes | hes := flatten_cases es
  · rw [hes] at h
    exact h.1
  · rwa [hes]

theorem allKnown_catchesOf {types : List String} {body : List Stmt} (h : Stmt.AllKnown body) :
    Catch.AllKnown (catchesOf types body) := by
  have copies (ts : List String) :
      Catch.AllKnown (ts.map fun name => ⟨some name, body⟩) := by
    induction ts with
    | nil => trivial
    | cons t ts ih => exact ⟨h, ih⟩
  cases types with
  | nil => exact ⟨h, trivial⟩
  | cons t ts => exact copies (t :: ts)

theorem allKnown_spread {value : Option Expr} (h : Expr.OptKnown value) :
    Argument.AllKnown (spread value) := by
  cases value with
  | none => trivial
  | some e =>
    have he : e.ungrouped.Known := Expr.ungrouped_of (fun _ hi => hi) h
    simp only [spread]
    split
    · next elements heq =>
      rw [heq] at he
      exact Argument.allKnown_positional he
    · exact ⟨he, trivial⟩

theorem allKnown_positionalValues {arguments : List Argument} (h : Argument.AllKnown arguments) :
    Expr.AllKnown (positionalValues arguments) := by
  rw [Expr.allKnown_iff]
  intro e he
  obtain ⟨a, ha, hv⟩ := List.mem_filterMap.mp he
  have hk := Argument.allKnown_iff.mp h a (List.mem_filter.mp ha).1
  rwa [hv] at hk

theorem known_namedValue {arguments : List Argument} {name : String} {e : Expr}
    (ha : Argument.AllKnown arguments) (h : namedValue arguments name = some e) : e.Known := by
  obtain ⟨a, hf, hv⟩ := Option.bind_eq_some_iff.mp h
  have hk := Argument.allKnown_iff.mp ha a (List.mem_of_find?_eq_some hf)
  rwa [hv] at hk

theorem known_bindValue {arguments : List Argument} {positional : List Expr} (name : String)
    (ha : Argument.AllKnown arguments) (hp : Expr.AllKnown positional) :
    Expr.OptKnown (bindValue arguments name positional).1 ∧
      Expr.AllKnown (bindValue arguments name positional).2 := by
  unfold bindValue
  split
  · next e he => exact ⟨known_namedValue ha he, hp⟩
  · cases positional with
    | nil => exact ⟨trivial, trivial⟩
    | cons e es => exact hp

theorem known_createdObject {arguments : List Argument} {e : Expr}
    (ha : Argument.AllKnown arguments) (h : createdObject arguments = some e) : e.Known := by
  have htype := known_bindValue "TypeName" ha (allKnown_positionalValues ha)
  unfold createdObject at h
  split at h
  · split at h
    · next typeName positional ht =>
      rw [ht] at htype
      have hlist := known_bindValue "ArgumentList" ha htype.2
      split at h
      · next value hv =>
        rw [hv] at hlist
        cases h
        exact allKnown_spread hlist.1
      · cases h
    · cases h
  · cases h

theorem known_commandExpr {callee : Expr} {arguments : List Argument} (hc : callee.Known)
    (ha : Argument.AllKnown arguments) : (commandExpr ⟨callee, arguments⟩).Known := by
  unfold commandExpr
  split
  · cases ho : createdObject arguments with
    | none => exact ⟨hc, ha⟩
    | some e => exact known_createdObject ha ho
  · exact ⟨hc, ha⟩

end Host

end Interlingua
