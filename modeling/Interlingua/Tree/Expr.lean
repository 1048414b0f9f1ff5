import Interlingua.Tree.Operator

namespace Interlingua.Text

def fold (name : String) : List Char := name.toList.map Char.toLower

/-- The two names differ at most in the case of ASCII letters. -/
def sameName (a b : String) : Bool := fold a == fold b

@[simp]
theorem sameName_iff {a b : String} : sameName a b = true ↔ fold a = fold b := by
  simp [sameName]

end Interlingua.Text

namespace Interlingua

mutual

inductive Expr where
  /-- The source text of a constant, written as it stands. -/
  | literal (source : String)
  | string (value : String)
  /-- Text with embedded references. Escapes are resolved: what is no reference is text. -/
  | template (body : String)
  | identifier (name : String)
  | binary (left : Expr) (op : BinaryOperator) (right : Expr)
  | before (op : UnaryOperator) (operand : Expr)
  | after (op : UnaryOperator) (operand : Expr)
  | cast (typeName : String) (operand : Expr)
  | grouped (inner : Expr)
  /-- A member of an object or, when `isStatic`, of a type. -/
  | member (target : Expr) (name : String) (isStatic : Bool)
  | element (target : Expr) (index : List Argument)
  | call (callee : Expr) (arguments : List Argument)
  | create (typeName : String) (arguments : List Argument)
  /-- The element type is `none` when the source names none. -/
  | array (elementType : Option String) (elements : List Expr)
  /-- `target = value`, or `target op= value`. -/
  | assign (target : Expr) (op : Option BinaryOperator) (value : Expr)

/-- An argument has a name, a value, or both; a name alone is a switch. -/
structure Argument where
  name : Option String
  value : Option Expr

end

instance : Inhabited Expr := ⟨.literal ""⟩
instance : Inhabited Argument := ⟨⟨none, none⟩⟩

namespace Argument

def positional (value : Expr) : Argument := ⟨none, some value⟩

def named (name : String) (value : Expr) : Argument := ⟨some name, some value⟩

def flag (name : String) : Argument := ⟨some name, none⟩

def isNamed (argument : Argument) (name : String) : Bool :=
  argument.name.any (Text.sameName · name)

end Argument

def argumentNamed (arguments : List Argument) (name : String) : Option Argument :=
  arguments.find? (·.isNamed name)

/-- A call on its own, as a command is first read. -/
structure Invocation where
  callee : Expr
  arguments : List Argument

namespace Invocation

def toExpr (invocation : Invocation) : Expr := .call invocation.callee invocation.arguments

/-- The name that is called, when the callee is no more than a name. -/
def commandName (invocation : Invocation) : Option String :=
  match invocation.callee with
  | .identifier name => some name
  | _ => none

end Invocation

namespace Expr

/-- The expression inside all enclosing groups. -/
def ungrouped : Expr → Expr
  | grouped inner => inner.ungrouped
  | e => e

theorem ungrouped_of {p : Expr → Prop} (hp : ∀ inner, p (grouped inner) → p inner) {e : Expr}
    (h : p e) : p e.ungrouped := by
  fun_induction ungrouped e with
  | case1 inner ih => exact ih (hp inner h)
  | case2 => exact h

def memberOfType (typeName name : String) : Expr := member (identifier typeName) name true

def indexed (target index : Expr) : Expr := element target [.positional index]

end Expr

end Interlingua
