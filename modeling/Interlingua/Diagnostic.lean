import Interlingua.Extent
import Interlingua.Tree.Stmt

namespace Interlingua

/-- A construct of the source that has no counterpart in the program tree. -/
structure Unsupported where
  kind : String
  extent : Extent
deriving DecidableEq

def Unsupported.message (u : Unsupported) : String :=
  "unsupported construct " ++ u.kind ++ " at " ++ u.extent.place

inductive Diagnostic where
  | unsupported (construct : Unsupported)
  /-- The tree carries an unknown operator in place of the token. -/
  | unknownOperator (token : String) (extent : Extent)
deriving DecidableEq

/-- A program tree together with everything that was approximated in it. -/
structure Reading where
  node : Node
  diagnostics : List Diagnostic

def Reading.isFaithful (r : Reading) : Bool := r.diagnostics.isEmpty

inductive OnUnsupported where
  | stop
  /-- A literal stands in for it and a diagnostic is recorded. -/
  | standIn
deriving DecidableEq

inductive OnDuplicate where
  | keepAll
  /-- Of each name only the last declaration stays. -/
  | keepLast
deriving DecidableEq

structure ReadPolicy where
  onUnsupported : OnUnsupported := .stop
  onDuplicate : OnDuplicate := .keepLast
deriving DecidableEq

/-- A result with the diagnostics recorded on the way to it, in order, unless a construct without
a counterpart ended the reading. -/
def Recorded (α : Type) : Type := Except Unsupported (α × List Diagnostic)

namespace Recorded

protected def pure {α : Type} (a : α) : Recorded α := .ok (a, [])

protected def bind {α β : Type} (x : Recorded α) (f : α → Recorded β) : Recorded β :=
  match x with
  | .error u => .error u
  | .ok (a, first) =>
    match f a with
    | .error u => .error u
    | .ok (b, second) => .ok (b, first ++ second)

instance : Monad Recorded where
  pure := Recorded.pure
  bind := Recorded.bind

theorem bind_pure {α β : Type} (a : α) (f : α → Recorded β) :
    (pure a : Recorded α) >>= f = f a := by
  change Recorded.bind (.ok (a, [])) f = f a
  cases h : f a with
  | error u => simp [Recorded.bind, h]; rfl
  | ok r => simp [Recorded.bind, h]; rfl

def record (d : Diagnostic) : Recorded Unit := .ok ((), [d])

/-- A construct without a counterpart: the end of the reading, or a literal in its place. -/
def unsupported (policy : ReadPolicy) (kind : String) (extent : Extent) : Recorded Expr :=
  match policy.onUnsupported with
  | .stop => .error ⟨kind, extent⟩
  | .standIn =>
    .ok (.literal (if extent.text = "" then kind else extent.text), [.unsupported ⟨kind, extent⟩])

end Recorded

end Interlingua
