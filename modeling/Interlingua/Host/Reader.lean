import Interlingua.Json.Text
import Interlingua.Host.AstJson
import Interlingua.Host.Conversion

namespace Interlingua

inductive ReadFailure where
  | fault (f : Json.Fault)
  | unsupported (construct : Unsupported)
deriving DecidableEq

namespace Host

/-- The value of the outermost node. Its position is taken as it is read, so what the position does
not declare is passed over; everything else is read before it is known what is needed. -/
def Ast.value (limit : Nat) : Json.Reader Json :=
  Json.objectOf limit fun key =>
    if key = "extent" then
      Json.objectOf (limit - 1) fun key =>
        if key ∈ Extent.keys then Json.value Json.codeUnit (limit - 2)
        else Json.passedOver (limit - 2)
    else Json.value Json.codeUnit (limit - 1)

/-- The tree in a JSON text. Numbers that no double can hold are refused wherever they are read. -/
def Ast.ofText (text : String) : Except Json.Fault Ast :=
  match Json.whole? (value Json.nestingLimit) text with
  | none => .error .malformed
  | some v => if v.inRange then Json.orMisshapen ofJson v else .error .malformed

def read (policy : ReadPolicy) (text : String) : Except ReadFailure Reading :=
  match Ast.ofText text with
  | .error f => .error (.fault f)
  | .ok ast =>
    match ast.toReading policy with
    | .error u => .error (.unsupported u)
    | .ok r => .ok r

end Host

end Interlingua
