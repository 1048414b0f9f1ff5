import Interlingua.Json.Value

namespace Interlingua.Json

/-- A reader takes what it needs from the front of a text and leaves the rest. -/
abbrev Reader (α : Type) := List Char → Option (α × List Char)

def isBlank (c : Char) : Bool := c == ' ' || c == '\t' || c == '\n' || c == '\r'

def skipBlanks (cs : List Char) : List Char := cs.dropWhile isBlank

inductive Escape where
  | outside
  | begun
  | digits (high : Option Nat) (count value : Nat)
  | high (value : Nat)
  | highBegun (value : Nat)

def hexValue (c : Char) : Option Nat :=
  if c.isDigit then some (c.toNat - '0'.toNat)
  else if 'a' ≤ c ∧ c ≤ 'f' then some (c.toNat - 'a'.toNat + 10)
  else if 'A' ≤ c ∧ c ≤ 'F' then some (c.toNat - 'A'.toNat + 10)
  else none

def unescape : Char → Option Char
  | '\"' => some '\"'
  | '\\' => some '\\'
  | '/' => some '/'
  | 'b' => some '\x08'
  | 'f' => some '\x0c'
  | 'n' => some '\n'
  | 'r' => some '\r'
  | 't' => some '\t'
  | _ => none

def isHighSurrogate (n : Nat) : Bool := 0xD800 ≤ n && n < 0xDC00

def isLowSurrogate (n : Nat) : Bool := 0xDC00 ≤ n && n < 0xE000

/-- What is known after the last digit of an escape, perhaps behind half of a character. -/
abbrev Units := (high : Option Nat) → (value : Nat) → Option (Char ⊕ Nat)

def codeUnit : Units := fun high value =>
  match high with
  | some h =>
    if isLowSurrogate value then
      some (.inl (Char.ofNat (0x10000 + (h - 0xD800) * 0x400 + (value - 0xDC00))))
    else none
  | none =>
    if isHighSurrogate value then some (.inr value)
    else if isLowSurrogate value then none
    else some (.inl (Char.ofNat value))

/-- Any four digits will do where the string is not needed. -/
def anyUnit : Units := fun _ value => some (.inl (Char.ofNat value))

/-- What is left of a string after its opening quote; `done` holds what is read, the last
character first. -/
def stringEnd (units : Units) : Escape → List Char → Reader String
  | _, _, [] => none
  | .outside, done, c :: cs =>
    if c = '\"' then some (String.ofList done.reverse, cs)
    else if c = '\\' then stringEnd units .begun done cs
    else if c.toNat < 0x20 then none
    else stringEnd units .outside (c :: done) cs
  | .begun, done, c :: cs =>
    if c = 'u' then stringEnd units (.digits none 0 0) done cs
    else
      match unescape c with
      | some c => stringEnd units .outside (c :: done) cs
      | none => none
  | .digits high count value, done, c :: cs =>
    match hexValue c with
    | none => none
    | some d =>
      if count < 3 then stringEnd units (.digits high (count + 1) (16 * value + d)) done cs
      else
        match units high (16 * value + d) with
        | some (.inl c) => stringEnd units .outside (c :: done) cs
        | some (.inr h) => stringEnd units (.high h) done cs
        | none => none
  | .high h, done, c :: cs => if c = '\\' then stringEnd units (.highBegun h) done cs else none
  | .highBegun h, done, c :: cs =>
    if c = 'u' then stringEnd units (.digits (some h) 0 0) done cs else none

def quoted (units : Units) : Reader String
  | '\"' :: cs => stringEnd units .outside [] cs
  | _ => none

def digits (cs : List Char) : Option (List Char × List Char) :=
  if (cs.takeWhile Char.isDigit).isEmpty then none
  else some (cs.takeWhile Char.isDigit, cs.dropWhile Char.isDigit)

/-- At least one digit, the first no zero that others follow. -/
def whole (cs : List Char) : Option (List Char × List Char) :=
  match digits cs with
  | some ('0' :: _ :: _, _) => none
  | r => r

def fraction : List Char → Option (List Char × List Char)
  | '.' :: cs => (digits cs).map fun r => ('.' :: r.1, r.2)
  | cs => some ([], cs)

def exponent : List Char → Option (List Char × List Char)
  | [] => some ([], [])
  | c :: cs =>
    if c = 'e' ∨ c = 'E' then
      match cs with
      | '+' :: ds => (digits ds).map fun r => (c :: '+' :: r.1, r.2)
      | '-' :: ds => (digits ds).map fun r => (c :: '-' :: r.1, r.2)
      | ds => (digits ds).map fun r => (c :: r.1, r.2)
    else some ([], c :: cs)

def unsigned (sign : List Char) : Reader Json := fun cs => do
  let (ws, cs) ← whole cs
  let (fs, cs) ← fraction cs
  let (es, cs) ← exponent cs
  if sign.isEmpty && fs.isEmpty && es.isEmpty then
    return (natural (Nat.ofDigitChars 10 ws 0), cs)
  else
    return (number (String.ofList (sign ++ ws ++ fs ++ es)), cs)

def scalar (units : Units) : Reader Json
  | '\"' :: cs => (stringEnd units .outside [] cs).map fun r => (string r.1, r.2)
  | 'n' :: 'u' :: 'l' :: 'l' :: cs => some (null, cs)
  | 't' :: 'r' :: 'u' :: 'e' :: cs => some (bool true, cs)
  | 'f' :: 'a' :: 'l' :: 's' :: 'e' :: cs => some (bool false, cs)
  | '-' :: cs => unsigned ['-'] cs
  | cs => unsigned [] cs

/-- One or more items with commas between them, up to `close`. Each round uses up at least one
character, so the length of the text is fuel enough. -/
def itemsUntil {α : Type} (close : Char) (item : Reader α) : Nat → Reader (List α)
  | 0, _ => none
  | fuel + 1, cs => do
    let (x, cs) ← item (skipBlanks cs)
    match skipBlanks cs with
    | ',' :: cs =>
      let (xs, cs) ← itemsUntil close item fuel cs
      return (x :: xs, cs)
    | c :: cs => if c = close then return ([x], cs) else none
    | [] => none

def sequence {α : Type} (close : Char) (item : Reader α) : Reader (List α) := fun cs =>
  match skipBlanks cs with
  | c :: rest => if c = close then some ([], rest) else itemsUntil close item cs.length (c :: rest)
  | [] => none

def member (units : Units) (under : String → Reader Json) : Reader (String × Json) := fun cs => do
  let (key, cs) ← quoted units cs
  match skipBlanks cs with
  | ':' :: cs =>
    let (v, cs) ← under key (skipBlanks cs)
    return ((key, v), cs)
  | _ => none

/-- A value that nests at most so many arrays and objects. -/
def value (units : Units) : Nat → Reader Json
  | 0, cs => scalar units cs
  | depth + 1, cs =>
    match cs with
    | '[' :: cs => (sequence ']' (value units depth) cs).map fun r => (array r.1, r.2)
    | '{' :: cs =>
      (sequence '}' (member units fun _ => value units depth) cs).map fun r => (object r.1, r.2)
    | cs => scalar units cs

/-- An object with a reader for what stands under each key, or another value. -/
def objectOf (depth : Nat) (under : String → Reader Json) : Reader Json
  | '{' :: cs => (sequence '}' (member codeUnit under) cs).map fun r => (object r.1, r.2)
  | cs => value codeUnit depth cs

/-- A value that is not needed. It may nest as deep as its text is long. -/
def passedOver (depth : Nat) : Reader Json := fun cs =>
  (value anyUnit (max depth cs.length) cs).map fun r => (null, r.2)

def whole? (item : Reader Json) (text : String) : Option Json :=
  match item (skipBlanks text.toList) with
  | some (v, rest) => if (skipBlanks rest).isEmpty then some v else none
  | none => none

/-- The value that a text holds, if it nests no deeper than `limit`. JSON is read strictly: no
comments, no trailing commas, no leading zeros, no bare control characters in strings, no half of a
surrogate pair, and nothing but blanks around the value. -/
def parse (limit : Nat) : String → Option Json := whole? (value codeUnit limit)

end Interlingua.Json
