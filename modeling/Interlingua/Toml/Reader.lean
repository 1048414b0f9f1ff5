import Interlingua.Toml.Document
import Interlingua.Toml.Quoted

namespace Interlingua.Toml

def skipSpaces (cs : List Char) : List Char := cs.dropWhile isSpace

/-- Keys have fewer parts than this, and values nest less deep. -/
def nestingLimit : Nat := 80

def isBareKeyChar (c : Char) : Bool := c.isAlphanum || c == '_' || c == '-'

def keyPart : Reader String
  | '\"' :: cs => basicEnd .outside [] cs
  | '\'' :: cs => literalEnd [] cs
  | cs =>
    if (cs.takeWhile isBareKeyChar).isEmpty then none
    else some (String.ofList (cs.takeWhile isBareKeyChar), cs.dropWhile isBareKeyChar)

/-- The parts of a key with points between them, the last part apart. Each round uses up at least
one character, so the length of the text is fuel enough. -/
def keyParts : Nat → Reader (List String × String)
  | 0, _ => none
  | fuel + 1, cs => do
    let (part, cs) ← keyPart (skipSpaces cs)
    match skipSpaces cs with
    | '.' :: cs =>
      let ((path, last), cs) ← keyParts fuel cs
      return ((part :: path, last), cs)
    | cs => return (([], part), cs)

def key : Reader (List String × String) := fun cs => do
  let ((path, last), cs) ← keyParts (cs.length + 1) cs
  if path.length + 1 < nestingLimit then return ((path, last), cs) else none

def skipComment (cs : List Char) : List Char := cs.dropWhile isPrintable

def skipLines : Nat → List Char → List Char
  | 0, cs => cs
  | fuel + 1, cs =>
    match skipSpaces cs with
    | '\n' :: cs => skipLines fuel cs
    | '#' :: cs => skipLines fuel (skipComment cs)
    | cs => cs

/-- A number, a truth value, a date or a time. A date and a time may have a space between them. -/
def scalar : Reader Toml := fun cs =>
  let word := cs.takeWhile isScalarChar
  let rest := cs.dropWhile isScalarChar
  match rest with
  | ' ' :: more =>
    let time := more.takeWhile isScalarChar
    if isDate word && isDateTime (word ++ ' ' :: time) then
      some (.dateTime (String.ofList (word ++ ' ' :: time)), more.dropWhile isScalarChar)
    else (scalarOf word).map (·, rest)
  | _ => (scalarOf word).map (·, rest)

def arrayItems (item : Reader Toml) : Nat → Reader (List Toml)
  | 0, _ => none
  | fuel + 1, cs =>
    match skipLines cs.length cs with
    | ']' :: cs => some ([], cs)
    | cs => do
      let (v, cs) ← item cs
      match skipLines cs.length cs with
      | ',' :: cs =>
        let (vs, cs) ← arrayItems item fuel cs
        return (v :: vs, cs)
      | ']' :: cs => return ([v], cs)
      | _ => none

def keyValue (item : Reader Toml) : Reader ((List String × String) × Toml) := fun cs => do
  let (k, cs) ← key cs
  match cs with
  | '=' :: cs =>
    let (v, cs) ← item (skipSpaces cs)
    return ((k, v), cs)
  | _ => none

/-- Entries of a table in braces up to the closing one, all on one line. -/
def inlineEntries (item : Reader Toml) : Nat → Entries → Reader Entries
  | 0, _, _ => none
  | fuel + 1, entries, cs => do
    let (((path, last), v), cs) ← keyValue item (skipSpaces cs)
    let entries ← entries.assign path last v
    match skipSpaces cs with
    | ',' :: cs => inlineEntries item fuel entries cs
    | '}' :: cs => return (entries, cs)
    | _ => none

def inlineTable (item : Reader Toml) : Reader Toml := fun cs =>
  match skipSpaces cs with
  | '}' :: cs => some (.table [], cs)
  | cs => (inlineEntries item cs.length [] cs).map fun r => (.table (entriesToToml r.1), r.2)

def value : Nat → Reader Toml
  | depth, cs =>
    match cs, depth with
    | '\"' :: _, _ | '\'' :: _, _ => (quoted cs).map fun r => (.string r.1, r.2)
    | '[' :: cs, depth + 1 =>
      (arrayItems (value depth) (cs.length + 1) cs).map fun r => (.array r.1, r.2)
    | '{' :: cs, depth + 1 => inlineTable (value depth) cs
    | cs, _ => scalar cs

structure Document where
  entries : Entries
  header : List String

def Document.empty : Document := ⟨[], []⟩

/-- The rest of a line: spaces, perhaps a comment, and the line end or the end of the text. -/
def lineEnd (cs : List Char) : Option (List Char) :=
  let rest := match skipSpaces cs with
    | '#' :: cs => skipComment cs
    | cs => cs
  match rest with
  | [] => some []
  | '\n' :: cs => some cs
  | _ => none

def statement (d : Document) : Reader Document
  | '[' :: '[' :: cs => do
    let ((path, last), cs) ← key cs
    match cs with
    | ']' :: ']' :: cs => return (⟨← d.entries.openElement path last, path ++ [last]⟩, cs)
    | _ => none
  | '[' :: cs => do
    let ((path, last), cs) ← key cs
    match cs with
    | ']' :: cs => return (⟨← d.entries.openTable path last, path ++ [last]⟩, cs)
    | _ => none
  | cs => do
    let (((path, last), v), cs) ← keyValue (value (nestingLimit - 1)) cs
    return ({ d with entries := ← d.entries.assignIn d.header path last v }, cs)

def linesOf : Nat → Document → List Char → Option Document
  | 0, _, _ => none
  | fuel + 1, d, cs =>
    match skipSpaces cs with
    | [] => some d
    | '\n' :: cs => linesOf fuel d cs
    | '#' :: cs => (lineEnd ('#' :: cs)).bind (linesOf fuel d)
    | cs => do
      let (d, cs) ← statement d cs
      linesOf fuel d (← lineEnd cs)

/-- A mark of the encoding may stand at the beginning. -/
def skipMark : List Char → List Char
  | '\uFEFF' :: cs => cs
  | cs => cs

/-- The table that a document is, by version 1.0. -/
def parse (text : String) : Option Toml := do
  let cs := joinLineEnds (skipMark text.toList)
  let d ← linesOf (cs.length + 1) .empty cs
  return .table (entriesToToml d.entries)

end Interlingua.Toml
