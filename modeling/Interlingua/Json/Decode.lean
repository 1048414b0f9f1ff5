import Interlingua.Json.Value

namespace Interlingua.Json

def string? : Json → Option String
  | string s => some s
  | _ => none

def bool? : Json → Option Bool
  | bool b => some b
  | _ => none

def natural? : Json → Option Nat
  | natural n => some n
  | _ => none

def list? {α : Type} (item : Json → Option α) : Json → Option (List α)
  | array items => items.mapM item
  | _ => none

/-- `null` stands for a missing value. -/
def optional? {α : Type} (f : Json → Option α) : Json → Option (Option α)
  | null => some none
  | v => (f v).map some

/-- One case of several: its name, and what it carries unless the name stands alone. -/
def variant? : Json → Option (String × Option Json)
  | string name => some (name, none)
  | object [(name, content)] => some (name, some content)
  | _ => none

def name? (v : Json) : Option String :=
  match v.variant? with
  | some (name, none) | some (name, some null) => some name
  | _ => none

abbrev Fields := List (String × Json)

/-- The members of an object, if none of the given keys occurs twice. -/
def members? (keys : List String) : Json → Option Fields
  | object members =>
    if keys.all fun key => members.countP (·.1 == key) ≤ 1 then some members else none
  | _ => none

/-- The members of data with these keys. Their values may also stand in an array, in the order of
the keys; the last ones may be missing there. -/
def fields? (keys : List String) : Json → Option Fields
  | array items => if items.length ≤ keys.length then some (keys.zip items) else none
  | v => v.members? keys

/-- The same for data of which no value may be missing in an array. -/
def allFields? (keys : List String) : Json → Option Fields
  | array items => if items.length = keys.length then some (keys.zip items) else none
  | v => v.members? keys

namespace Fields

def required {α : Type} (members : Fields) (key : String) (f : Json → Option α) : Option α :=
  (members.lookup key).bind f

def defaulted {α : Type} (members : Fields) (key : String) (default : α)
    (f : Json → Option α) : Option α :=
  match members.lookup key with
  | none => some default
  | some v => f v

def optional {α : Type} (members : Fields) (key : String) (f : Json → Option α) :
    Option (Option α) :=
  members.defaulted key none (optional? f)

end Fields

end Interlingua.Json
