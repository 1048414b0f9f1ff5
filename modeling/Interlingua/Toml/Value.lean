namespace Interlingua

/-- Floats and times are kept as they are written. -/
inductive Toml where
  | string (value : String)
  | integer (value : Int)
  | float (literal : String)
  | bool (value : Bool)
  | dateTime (literal : String)
  | array (items : List Toml)
  | table (entries : List (String × Toml))

instance : Inhabited Toml := ⟨.table []⟩

namespace Toml

def string? : Toml → Option String
  | string s => some s
  | _ => none

def bool? : Toml → Option Bool
  | bool b => some b
  | _ => none

def natural? : Toml → Option Nat
  | integer (.ofNat n) => some n
  | _ => none

def entries? : Toml → Option (List (String × Toml))
  | table entries => some entries
  | _ => none

def name? : Toml → Option String
  | string s => some s
  | table [(key, table [])] | table [(key, array [])] => some key
  | _ => none

end Toml

end Interlingua
