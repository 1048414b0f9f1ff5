import Interlingua.Tree.Expr

namespace Interlingua.Host

def positionalValues (arguments : List Argument) : List Expr :=
  (arguments.filter (·.name.isNone)).filterMap (·.value)

def namedValue (arguments : List Argument) (name : String) : Option Expr :=
  (argumentNamed arguments name).bind (·.value)

/-- A parameter takes the value given under its name or else the next positional one. With it
comes what is left of the positional values. -/
def bindValue (arguments : List Argument) (name : String) (positional : List Expr) :
    Option Expr × List Expr :=
  match namedValue arguments name with
  | some value => (some value, positional)
  | none => (positional.head?, positional.tail)

def spread : Option Expr → List Argument
  | none => []
  | some value =>
    match value.ungrouped with
    | .array none elements => elements.map .positional
    | other => [.positional other]

def isObjectParameter (argument : Argument) : Bool :=
  argument.name.isNone || argument.isNamed "TypeName" || argument.isNamed "ArgumentList"

/-- The object that `New-Object` with these arguments creates, if its type is a literal name and
every argument has a place. -/
def createdObject (arguments : List Argument) : Option Expr :=
  if arguments.all isObjectParameter then
    match bindValue arguments "TypeName" (positionalValues arguments) with
    | (some (.string typeName), positional) =>
      match bindValue arguments "ArgumentList" positional with
      | (value, []) => some (.create typeName (spread value))
      | _ => none
    | _ => none
  else none

theorem eq_create_of_createdObject {arguments : List Argument} {e : Expr}
    (h : createdObject arguments = some e) : ∃ typeName passed, e = .create typeName passed := by
  unfold createdObject at h
  split at h
  · split at h
    · split at h
      · cases h
        exact ⟨_, _, rfl⟩
      · cases h
    · cases h
  · cases h

def commandExpr (invocation : Invocation) : Expr :=
  if invocation.commandName.any (Text.sameName "New-Object") then
    (createdObject invocation.arguments).getD invocation.toExpr
  else invocation.toExpr

theorem eq_of_commandExpr {invocation : Invocation} {callee : Expr} {passed : List Argument}
    (h : commandExpr invocation = .call callee passed) : invocation = ⟨callee, passed⟩ := by
  have hcall (he : invocation.toExpr = .call callee passed) : invocation = ⟨callee, passed⟩ := by
    cases he
    rfl
  unfold commandExpr at h
  split at h
  · cases ho : createdObject invocation.arguments with
    | none =>
      rw [ho] at h
      exact hcall h
    | some object =>
      rw [ho] at h
      obtain ⟨typeName, arguments, rfl⟩ := eq_create_of_createdObject ho
      cases h
  · exact hcall h

end Interlingua.Host
