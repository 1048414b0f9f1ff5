import Interlingua.Toml.Value

namespace Interlingua.Toml

/-- How a table came to be, which decides what may still be added to it. -/
inductive Origin where
  | header
  /-- By the header of a table inside it. -/
  | implied
  | dotted
deriving DecidableEq

inductive Item where
  | value (v : Toml)
  | table (origin : Origin) (entries : List (String × Item))
  /-- An array of tables, each with a header of its own. -/
  | tables (elements : List (List (String × Item)))

abbrev Entries := List (String × Item)

namespace Entries

def replace (entries : Entries) (key : String) (item : Item) : Entries :=
  entries.map fun e => if e.1 = key then (key, item) else e

/-- Goes down a path, making tables that are not there, and changes the table at its end. The
change is told whether a dotted key made that table. A dotted path does not enter tables that
have a header. -/
def modify (dotted : Bool) (change : Bool → Entries → Option Entries) :
    List String → Bool → Entries → Option Entries
  | [], isDotted, entries => change isDotted entries
  | key :: path, _, entries =>
    match entries.lookup key with
    | none => do
      let inner ← modify dotted change path dotted []
      return entries ++ [(key, .table (if dotted then .dotted else .implied) inner)]
    | some (.value _) => none
    | some (.table origin inner) =>
      if dotted && origin == .header then none
      else do
        let inner ← modify dotted change path (origin == .dotted) inner
        return entries.replace key (.table origin inner)
    | some (.tables elements) => do
      let last ← elements.getLast?
      let last ← modify dotted change path false last
      return entries.replace key (.tables (elements.dropLast ++ [last]))

/-- Gives a value to a key behind a dotted path. The table at the end of a path that is not empty
must be one that dotted keys made. -/
def assign (path : List String) (key : String) (v : Toml) : Entries → Option Entries :=
  modify true
    (fun isDotted entries =>
      if isDotted == path.isEmpty then none
      else if (entries.lookup key).isSome then none
      else some (entries ++ [(key, .value v)]))
    path false

def assignIn (header path : List String) (key : String) (v : Toml) : Entries → Option Entries :=
  modify false (fun _ => assign path key v) header false

/-- Opens a table. It must be new, or known only from tables inside it. -/
def openTable (path : List String) (key : String) : Entries → Option Entries :=
  modify false
    (fun _ entries =>
      match entries.lookup key with
      | none => some (entries ++ [(key, .table .header [])])
      | some (.table .implied inner) => some (entries.replace key (.table .header inner))
      | some _ => none)
    path false

def openElement (path : List String) (key : String) : Entries → Option Entries :=
  modify false
    (fun _ entries =>
      match entries.lookup key with
      | none => some (entries ++ [(key, .tables [[]])])
      | some (.tables elements) => some (entries.replace key (.tables (elements ++ [[]])))
      | some _ => none)
    path false

end Entries

mutual

def Item.toToml : Item → Toml
  | .value v => v
  | .table _ entries => .table (entriesToToml entries)
  | .tables elements => .array (elementsToToml elements)
termination_by structural i => i

def entryToToml : String × Item → String × Toml
  | (key, i) => (key, i.toToml)
termination_by structural e => e

def entriesToToml : List (String × Item) → List (String × Toml)
  | [] => []
  | e :: es => entryToToml e :: entriesToToml es
termination_by structural es => es

def elementsToToml : List (List (String × Item)) → List Toml
  | [] => []
  | es :: ess => .table (entriesToToml es) :: elementsToToml ess
termination_by structural ess => ess

end

end Interlingua.Toml
