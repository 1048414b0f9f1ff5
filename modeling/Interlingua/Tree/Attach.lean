import Interlingua.Tree.Expr

namespace Interlingua

namespace Argument

def lacksValue (argument : Argument) : Bool := argument.name.isSome && argument.value.isNone

def isUnnamed (argument : Argument) : Bool := argument.name.isNone

def withValue (argument : Argument) (value : Expr) : Argument :=
  { argument with value := some value }

end Argument

/-- From left to right, each name that awaits a value takes the positional value behind it. -/
def attachValues : List Argument → List Argument
  | [] => []
  | [argument] => [argument]
  | argument :: next :: rest =>
    if argument.lacksValue && next.isUnnamed then
      { argument with value := next.value } :: attachValues rest
    else argument :: attachValues (next :: rest)

/-- Attaching moves values, so what is collected of names and values stays. -/
theorem flatMap_attachValues {α : Type} {f : Argument → List α} (names : Option String → List α)
    {values : Option Expr → List α} (hf : ∀ a, f a = names a.name ++ values a.value)
    (hn : names none = []) (hv : values none = []) (as : List Argument) :
    (attachValues as).flatMap f = as.flatMap f := by
  fun_induction attachValues as with
  | case1 => rfl
  | case2 => rfl
  | case3 a next rest h ih =>
    simp only [Argument.lacksValue, Argument.isUnnamed, Bool.and_eq_true,
      Option.isNone_iff_eq_none] at h
    obtain ⟨⟨-, ha⟩, hnext⟩ := h
    simp [hf, ih, ha, hnext, hn, hv]
  | case4 a next rest _ ih => simp only [List.flatMap_cons, ih]

end Interlingua
