namespace Interlingua.Text

/-- The least number that no finite double is nearest to. -/
def doubleBound : Nat := Nat.pow 2 1024 - Nat.pow 2 970

/-- The number `digits * 10 ^ exponent`, `digits` written out, lies beyond all doubles. -/
def exceedsDouble (digits : List Char) (exponent : Int) : Bool :=
  let mantissa := Nat.ofDigitChars 10 digits 0
  if mantissa = 0 then false
  else if 309 < exponent then true
  else if digits.length + exponent ≤ 308 then false
  else if 0 ≤ exponent then doubleBound ≤ mantissa * Nat.pow 10 exponent.toNat
  else doubleBound * Nat.pow 10 (-exponent).toNat ≤ mantissa

def signedValue : List Char → Int
  | '-' :: digits => -(Nat.ofDigitChars 10 digits 0 : Int)
  | '+' :: digits => Nat.ofDigitChars 10 digits 0
  | digits => Nat.ofDigitChars 10 digits 0

def literalExceedsDouble (literal : List Char) : Bool :=
  let isExponentMark := fun c : Char => c = 'e' || c = 'E'
  let significand := literal.takeWhile (! isExponentMark ·)
  let exponent := (literal.dropWhile (! isExponentMark ·)).tail
  let places := (significand.dropWhile (· ≠ '.')).tail.length
  exceedsDouble (significand.filter Char.isDigit) (signedValue exponent - places)

end Interlingua.Text
