import Interlingua.Json.Reader
import Interlingua.Text.Magnitude

namespace Interlingua.Json

inductive Fault where
  /-- It is no JSON, or it goes beyond what is read. -/
  | malformed
  | misshapen
deriving DecidableEq

def nestingLimit : Nat := 127

def decodeText {α : Type} (decode : Json → Except Fault α) (text : String) : Except Fault α :=
  match parse nestingLimit text with
  | none => .error .malformed
  | some v => decode v

/-- A value without data of the shape that was asked for is misshapen. -/
def orMisshapen {α : Type} (decode : Json → Option α) (v : Json) : Except Fault α :=
  match decode v with
  | none => .error .misshapen
  | some a => .ok a

mutual

/-- No number in the value is too large for a double. -/
def inRange : Json → Bool
  | natural n => n < Text.doubleBound
  | number literal => !Text.literalExceedsDouble literal.toList
  | array items => itemsInRange items
  | object members => membersInRange members
  | _ => true
termination_by structural v => v

def itemsInRange : List Json → Bool
  | [] => true
  | v :: vs => v.inRange && itemsInRange vs
termination_by structural vs => vs

def memberInRange : String × Json → Bool
  | (_, v) => v.inRange
termination_by structural m => m

def membersInRange : List (String × Json) → Bool
  | [] => true
  | m :: ms => memberInRange m && membersInRange ms
termination_by structural ms => ms

end

end Interlingua.Json
