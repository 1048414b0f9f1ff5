import Interlingua.Text.Magnitude
import Interlingua.Toml.Value

namespace Interlingua.Toml

def isHexDigit (c : Char) : Bool := c.isDigit || ('a' ≤ c && c ≤ 'f') || ('A' ≤ c && c ≤ 'F')

def isOctalDigit (c : Char) : Bool := '0' ≤ c && c ≤ '7'

def isBinaryDigit (c : Char) : Bool := c == '0' || c == '1'

def digitValue (c : Char) : Nat :=
  if c.isDigit then c.toNat - '0'.toNat
  else if 'a' ≤ c then c.toNat - 'a'.toNat + 10
  else c.toNat - 'A'.toNat + 10

/-- The digits without the underscores, each of which must stand between two digits. -/
def digitsOf (isDigit : Char → Bool) : List Char → Option (List Char)
  | [] => none
  | [c] => if isDigit c then some [c] else none
  | c :: '_' :: cs => if isDigit c then (digitsOf isDigit cs).map (c :: ·) else none
  | c :: cs => if isDigit c then (digitsOf isDigit cs).map (c :: ·) else none

def valueOf (base : Nat) (digits : List Char) : Nat :=
  digits.foldl (fun n c => base * n + digitValue c) 0

def wholeOf (cs : List Char) : Option (List Char) :=
  match digitsOf Char.isDigit cs with
  | some ('0' :: _ :: _) => none
  | r => r

def unsign : List Char → Bool × List Char
  | '-' :: cs => (true, cs)
  | '+' :: cs => (false, cs)
  | cs => (false, cs)

/-- Integers have 64 bits, one of them for the sign. -/
def bounded (n : Int) : Option Toml :=
  if Int64.minValue.toInt ≤ n ∧ n ≤ Int64.maxValue.toInt then some (.integer n) else none

def integerOf : List Char → Option Toml
  | '0' :: 'x' :: cs => (digitsOf isHexDigit cs).bind fun ds => bounded (valueOf 16 ds)
  | '0' :: 'o' :: cs => (digitsOf isOctalDigit cs).bind fun ds => bounded (valueOf 8 ds)
  | '0' :: 'b' :: cs => (digitsOf isBinaryDigit cs).bind fun ds => bounded (valueOf 2 ds)
  | cs =>
    let (negative, cs) := unsign cs
    (wholeOf cs).bind fun ds =>
      bounded (if negative then -(valueOf 10 ds : Int) else valueOf 10 ds)

def isExponentMark (c : Char) : Bool := c == 'e' || c == 'E'

def exponentOf : List Char → Option (List Char)
  | [] => some []
  | _ :: cs => digitsOf Char.isDigit (unsign cs).2

def fractionOf : List Char → Option (List Char)
  | [] => some []
  | _ :: cs => digitsOf Char.isDigit cs

/-- Whole part, fraction and exponent, the latter two with the character that opens them. -/
def floatParts (cs : List Char) : List Char × List Char × List Char :=
  let significand := cs.takeWhile (! isExponentMark ·)
  (significand.takeWhile (· ≠ '.'), significand.dropWhile (· ≠ '.'),
    cs.dropWhile (! isExponentMark ·))

/-- A float has a fraction or an exponent, or is infinite or no number. One that is positive must
not be too large for a double. -/
def floatOf (literal : List Char) : Option Toml :=
  let (negative, cs) := unsign literal
  let float := Toml.float (String.ofList literal)
  if cs = "inf".toList ∨ cs = "nan".toList then some float
  else
    match floatParts cs with
    | (_, [], []) => none
    | (w, f, e) =>
      if (wholeOf w).isNone || (fractionOf f).isNone || (exponentOf e).isNone then none
      else if !negative && Text.literalExceedsDouble (cs.filter (· ≠ '_')) then none
      else some float

def twoDigits (least most : Nat) (a b : Char) : Bool :=
  a.isDigit && b.isDigit && least ≤ valueOf 10 [a, b] && valueOf 10 [a, b] ≤ most

def isLeapYear (y : Nat) : Bool := y % 4 == 0 && (y % 100 != 0 || y % 400 == 0)

def daysInMonth (year month : Nat) : Nat :=
  if month = 2 then if isLeapYear year then 29 else 28
  else if month = 4 ∨ month = 6 ∨ month = 9 ∨ month = 11 then 30
  else 31

/-- `yyyy-mm-dd`, a day that exists. -/
def isDate : List Char → Bool
  | [y₁, y₂, y₃, y₄, '-', m₁, m₂, '-', d₁, d₂] =>
    [y₁, y₂, y₃, y₄].all Char.isDigit && twoDigits 1 12 m₁ m₂ &&
      twoDigits 1 (daysInMonth (valueOf 10 [y₁, y₂, y₃, y₄]) (valueOf 10 [m₁, m₂])) d₁ d₂
  | _ => false

def isSecondFraction : List Char → Bool
  | [] => true
  | '.' :: cs => !cs.isEmpty && cs.all Char.isDigit
  | _ => false

/-- `hh:mm:ss`, perhaps with a fraction. A minute may have a leap second. -/
def isTime : List Char → Bool
  | h₁ :: h₂ :: ':' :: m₁ :: m₂ :: ':' :: s₁ :: s₂ :: cs =>
    twoDigits 0 23 h₁ h₂ && twoDigits 0 59 m₁ m₂ && twoDigits 0 60 s₁ s₂ && isSecondFraction cs
  | _ => false

def isOffset : List Char → Bool
  | ['Z'] | ['z'] => true
  | [s, h₁, h₂, ':', m₁, m₂] =>
    (s == '+' || s == '-') && twoDigits 0 23 h₁ h₂ && twoDigits 0 59 m₁ m₂
  | _ => false

def isOffsetTime (cs : List Char) : Bool :=
  let isTimeChar := fun c : Char => c.isDigit || c == ':' || c == '.'
  isTime (cs.takeWhile isTimeChar) &&
    ((cs.dropWhile isTimeChar).isEmpty || isOffset (cs.dropWhile isTimeChar))

def isDateTime (cs : List Char) : Bool :=
  isDate cs || isTime cs ||
    (isDate (cs.take 10) &&
      match cs.drop 10 with
      | c :: time => (c == 'T' || c == 't' || c == ' ') && isOffsetTime time
      | [] => false)

def isScalarChar (c : Char) : Bool :=
  c.isAlphanum || c == '_' || c == '+' || c == '-' || c == '.' || c == ':'

def scalarOf (cs : List Char) : Option Toml :=
  if cs = "true".toList then some (.bool true)
  else if cs = "false".toList then some (.bool false)
  else if isDateTime cs then some (.dateTime (String.ofList cs))
  else (integerOf cs).or (floatOf cs)

end Interlingua.Toml
