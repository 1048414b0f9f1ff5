namespace Interlingua

/-- An object keeps its members in the order in which they are written, repeated keys included. -/
inductive Json where
  | null
  | bool (value : Bool)
  /-- A number that is written with digits alone. -/
  | natural (value : Nat)
  /-- Any other number: a sign, a fraction or an exponent, as it is written. -/
  | number (literal : String)
  | string (value : String)
  | array (items : List Json)
  | object (members : List (String × Json))

instance : Inhabited Json := ⟨.null⟩

namespace Json

def ofOption {α : Type} (f : α → Json) : Option α → Json
  | none => null
  | some a => f a

mutual

def depth : Json → Nat
  | array items => depthOfItems items + 1
  | object members => depthOfMembers members + 1
  | _ => 0
termination_by structural v => v

def depthOfItems : List Json → Nat
  | [] => 0
  | v :: vs => max v.depth (depthOfItems vs)
termination_by structural vs => vs

def depthOfMember : String × Json → Nat
  | (_, v) => v.depth
termination_by structural m => m

def depthOfMembers : List (String × Json) → Nat
  | [] => 0
  | m :: ms => max (depthOfMember m) (depthOfMembers ms)
termination_by structural ms => ms

end

end Json

end Interlingua
