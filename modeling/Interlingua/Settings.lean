import Interlingua.Diagnostic
import Interlingua.Render.Page
import Interlingua.Toml.Reader

namespace Interlingua

structure Settings where
  policy : ReadPolicy := {}
  layout : Layout := {}
deriving DecidableEq

inductive SettingsError where
  | unreadable (path reason : String)
  /-- The text is no TOML, or a setting has no such value. -/
  | invalid
deriving DecidableEq

def OnUnsupported.name : OnUnsupported → String
  | stop => "error"
  | standIn => "placeholder"

def OnUnsupported.ofName? : String → Option OnUnsupported
  | "error" => some stop
  | "placeholder" => some standIn
  | _ => none

def OnDuplicate.name : OnDuplicate → String
  | keepAll => "preserve"
  | keepLast => "last_wins"

def OnDuplicate.ofName? : String → Option OnDuplicate
  | "preserve" => some keepAll
  | "last_wins" => some keepLast
  | _ => none

def ReadPolicy.ofJson (v : Json) : Option ReadPolicy := do
  let fields ← v.fields? ["on_unsupported", "duplicate_parameters"]
  return ⟨← fields.defaulted "on_unsupported" .stop (·.name?.bind OnUnsupported.ofName?),
    ← fields.defaulted "duplicate_parameters" .keepLast
      (·.name?.bind OnDuplicate.ofName?)⟩

/-- A width is a number of 64 bits. -/
def widthOfJson (v : Json) : Option Nat := v.natural?.filter (· < UInt64.size)

def Layout.ofJson (v : Json) : Option Layout := do
  let fields ← v.fields? ["indent_width", "terminate_statements"]
  return ⟨← fields.defaulted "indent_width" 4 widthOfJson,
    ← fields.optional "terminate_statements" Json.bool?⟩

def Toml.defaulted {α : Type} (entries : List (String × Toml)) (key : String) (default : α)
    (f : Toml → Option α) : Option α :=
  match entries.lookup key with
  | none => some default
  | some v => f v

def ReadPolicy.ofToml (v : Toml) : Option ReadPolicy := do
  let entries ← v.entries?
  return ⟨← Toml.defaulted entries "on_unsupported" .stop
      (·.name?.bind OnUnsupported.ofName?),
    ← Toml.defaulted entries "duplicate_parameters" .keepLast
      (·.name?.bind OnDuplicate.ofName?)⟩

def Layout.ofToml (v : Toml) : Option Layout := do
  let entries ← v.entries?
  return ⟨← Toml.defaulted entries "indent_width" 4 Toml.natural?,
    ← Toml.defaulted entries "terminate_statements" none fun w => w.bool?.map some⟩

namespace Settings

def ofToml (v : Toml) : Option Settings := do
  let entries ← v.entries?
  return ⟨← Toml.defaulted entries "adapter" {} ReadPolicy.ofToml,
    ← Toml.defaulted entries "render" {} Layout.ofToml⟩

def ofText (text : String) : Except SettingsError Settings :=
  match (Toml.parse text).bind ofToml with
  | some settings => .ok settings
  | none => .error .invalid

def load (path : String) (content : Except String String) : Except SettingsError Settings :=
  match content with
  | .ok text => ofText text
  | .error reason => .error (.unreadable path reason)

end Settings

def SettingsError.message : SettingsError → String
  | unreadable path reason => "failed to read " ++ path ++ ": " ++ reason
  | invalid => "invalid settings"

end Interlingua
