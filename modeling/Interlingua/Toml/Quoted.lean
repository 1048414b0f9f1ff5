import Interlingua.Toml.Scalar

namespace Interlingua.Toml

abbrev Reader (α : Type) := List Char → Option (α × List Char)

/-- A character that is no control character, apart from the tab. -/
def isPrintable (c : Char) : Bool := c == '\t' || (0x20 ≤ c.toNat && c.toNat != 0x7F)

def isSpace (c : Char) : Bool := c == ' ' || c == '\t'

inductive Escape where
  | outside
  | begun
  | digits (missing value : Nat)
  /-- Blanks behind a backslash, with a line end among them when `ended`. -/
  | lineEnd (ended : Bool)

def unescape : Char → Option Char
  | 'b' => some '\x08'
  | 't' => some '\t'
  | 'n' => some '\n'
  | 'f' => some '\x0c'
  | 'r' => some '\r'
  | '\"' => some '\"'
  | '\\' => some '\\'
  | _ => none

def digitCount : Char → Option Nat
  | 'u' => some 4
  | 'U' => some 8
  | _ => none

def scalarValue (n : Nat) : Option Char := if n.isValidChar then some (Char.ofNat n) else none

/-- What one character of a basic string does: the state behind it and what it adds. -/
def basicChar (multiline : Bool) : Escape → Char → Option (Escape × List Char)
  | .outside, c =>
    if c = '\\' then some (.begun, [])
    else if isPrintable c || (multiline && c == '\n') then some (.outside, [c])
    else none
  | .begun, c =>
    match unescape c, digitCount c with
    | some d, _ => some (.outside, [d])
    | none, some count => some (.digits count 0, [])
    | none, none =>
      if multiline && c == '\n' then some (.lineEnd true, [])
      else if multiline && isSpace c then some (.lineEnd false, [])
      else none
  | .digits missing value, c =>
    if isHexDigit c then
      if missing ≤ 1 then (scalarValue (16 * value + digitValue c)).map fun d => (.outside, [d])
      else some (.digits (missing - 1) (16 * value + digitValue c), [])
    else none
  | .lineEnd ended, c =>
    if c = '\n' then some (.lineEnd true, [])
    else if isSpace c then some (.lineEnd ended, [])
    else if !ended then none
    else if c = '\\' then some (.begun, [])
    else if isPrintable c then some (.outside, [c])
    else none

def Escape.mayEnd : Escape → Bool
  | .outside | .lineEnd true => true
  | _ => false

/-- What is left of a basic string on one line; `done` holds what is read, the last character
first. -/
def basicEnd : Escape → List Char → Reader String
  | _, _, [] => none
  | state, done, c :: cs =>
    if state.mayEnd && c == '\"' then some (String.ofList done.reverse, cs)
    else
      match basicChar false state c with
      | some (state, added) => basicEnd state (added ++ done) cs
      | none => none

def literalEnd : List Char → Reader String
  | _, [] => none
  | done, c :: cs =>
    if c = '\'' then some (String.ofList done.reverse, cs)
    else if isPrintable c then literalEnd (c :: done) cs
    else none

/-- Three quotes end a string of several lines; up to two more before them belong to it. -/
def closing (quotes : Nat) (quote : Char) (done : List Char) : Option String :=
  if 3 ≤ quotes ∧ quotes ≤ 5 then
    some (String.ofList (done.reverse ++ List.replicate (quotes - 3) quote))
  else none

def multilineBasicEnd : Escape → (quotes : Nat) → List Char → Reader String
  | _, quotes, done, [] => (closing quotes '\"' done).map (·, [])
  | state, quotes, done, c :: cs =>
    if state.mayEnd && c == '\"' then multilineBasicEnd .outside (quotes + 1) done cs
    else if 3 ≤ quotes then (closing quotes '\"' done).map (·, c :: cs)
    else
      match basicChar true state c with
      | some (state, added) =>
        multilineBasicEnd state 0 (added ++ List.replicate quotes '\"' ++ done) cs
      | none => none

def multilineLiteralEnd : (quotes : Nat) → List Char → Reader String
  | quotes, done, [] => (closing quotes '\'' done).map (·, [])
  | quotes, done, c :: cs =>
    if c = '\'' then multilineLiteralEnd (quotes + 1) done cs
    else if 3 ≤ quotes then (closing quotes '\'' done).map (·, c :: cs)
    else if isPrintable c || c == '\n' then
      multilineLiteralEnd 0 (c :: (List.replicate quotes '\'' ++ done)) cs
    else none

def skipLineEnd : List Char → List Char
  | '\n' :: cs => cs
  | cs => cs

def quoted : Reader String
  | '\"' :: '\"' :: '\"' :: cs => multilineBasicEnd .outside 0 [] (skipLineEnd cs)
  | '\'' :: '\'' :: '\'' :: cs => multilineLiteralEnd 0 [] (skipLineEnd cs)
  | '\"' :: cs => basicEnd .outside [] cs
  | '\'' :: cs => literalEnd [] cs
  | _ => none

def joinLineEnds : List Char → List Char
  | '\r' :: '\n' :: cs => '\n' :: joinLineEnds cs
  | c :: cs => c :: joinLineEnds cs
  | [] => []

end Interlingua.Toml
