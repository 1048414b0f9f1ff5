import Interlingua.Json.Decode

namespace Interlingua

/-- Lines and columns count from one; zero stands for an unknown position. -/
structure Extent where
  startLine : UInt32 := 0
  startColumn : UInt32 := 0
  endLine : UInt32 := 0
  endColumn : UInt32 := 0
  text : String := ""
deriving DecidableEq

namespace Extent

def place (e : Extent) : String :=
  toString e.startLine.toNat ++ ":" ++ toString e.startColumn.toNat

def positionToJson (n : UInt32) : Json := .natural n.toNat

def positionOfJson (v : Json) : Option UInt32 := do
  let n ← v.natural?
  if n < UInt32.size then return n.toUInt32 else none

def toJson (e : Extent) : Json :=
  .object [("start_line", positionToJson e.startLine),
    ("start_column", positionToJson e.startColumn), ("end_line", positionToJson e.endLine),
    ("end_column", positionToJson e.endColumn), ("text", .string e.text)]

def keys : List String := ["start_line", "start_column", "end_line", "end_column", "text"]

def ofJson (v : Json) : Option Extent := do
  let fields ← v.fields? keys
  return ⟨← fields.defaulted "start_line" 0 positionOfJson,
    ← fields.defaulted "start_column" 0 positionOfJson,
    ← fields.defaulted "end_line" 0 positionOfJson,
    ← fields.defaulted "end_column" 0 positionOfJson,
    ← fields.defaulted "text" "" Json.string?⟩

end Extent

end Interlingua
