import Interlingua.Proofs.Template.Parts

namespace Interlingua.Template

open Text (isWord)

/-- What a reference refers to: a name behind its scope, or an expression in parentheses. -/
def Part.target? : Part → Option String
  | .text _ => none
  | .ref scope name _ => some (String.ofList (fullName scope name))
  | .expr source => some ("(" ++ source ++ ")")

/-- What the references of a template refer to, in order. -/
def references (template : String) : List String := (parts template).filterMap Part.target?

def targets (cs : List Char) : List String := (scan [] cs).filterMap Part.target?

theorem references_eq_targets (template : String) :
    references template = targets template.toList := rfl

theorem filterMap_withText (gathered : List Char) (parts : List Part) :
    (withText gathered parts).filterMap Part.target? = parts.filterMap Part.target? := by
  cases gathered <;> rfl

theorem filterMap_scan (gathered others cs : List Char) :
    (scan gathered cs).filterMap Part.target? = (scan others cs).filterMap Part.target? := by
  fun_induction scan gathered cs generalizing others with
  | case1 gathered => rw [scan, filterMap_withText, filterMap_withText]
  | case2 gathered cs p rest hr _ ih =>
    rw [scan_reference hr, filterMap_withText, filterMap_withText]
  | case3 gathered cs hr ih => rw [scan_cons fun _ => hr, ih]
  | case4 gathered c cs hc ih => rw [scan_cons fun hd => absurd hd hc, ih]

theorem targets_cons {c : Char} {cs : List Char} (h : c = '$' → reference cs = none) :
    targets (c :: cs) = targets cs := by
  rw [targets, scan_cons h]
  exact filterMap_scan _ _ cs

theorem targets_append {text : List Char} (h : '$' ∉ text) (cs : List Char) :
    targets (text ++ cs) = targets cs := by
  induction text with
  | nil => rfl
  | cons c text ih =>
    rw [List.mem_cons, not_or] at h
    rw [List.cons_append, targets_cons fun hd => absurd hd.symm h.1, ih h.2]

theorem targets_reference {cs rest : List Char} {scope : Option String} {name : String}
    {braced : Bool} (h : reference cs = some (.ref scope name braced, rest)) :
    targets ('$' :: cs) = String.ofList (fullName scope name) :: targets rest := by
  rw [targets, scan_reference h]
  rfl

/-- A name, or two with a colon between them. -/
def IsPath (path : String) : Prop :=
  ∃ scope name, path.toList = fullName scope name ∧ (∀ s ∈ scope, IsName s) ∧ IsName name

instance (name : String) : Decidable (IsName name) :=
  decidable_of_iff (name ≠ "" ∧ name.toList.all isWord = true) (by rw [IsName, List.all_eq_true])

theorem IsPath.of_isName {name : String} (h : IsName name) : IsPath name :=
  ⟨none, name, rfl, nofun, h⟩

theorem IsPath.of_scoped {path : String} (scope name : String) (hs : IsName scope)
    (hn : IsName name) (hp : path.toList = scope.toList ++ ':' :: name.toList) : IsPath path := by
  refine ⟨some scope, name, hp, fun s h => ?_, hn⟩
  cases h
  exact hs

/-- A name in front of the text ends there. -/
structure Stops (rest : List Char) : Prop where
  not_word : ∀ c ∈ rest.head?, isWord c = false
  not_scope : ∀ c cs, rest = ':' :: c :: cs → isWord c = false

def Stopping (text : List Char) : Prop := ∀ rest, Stops rest → Stops (text ++ rest)

theorem stops_nil : Stops [] := ⟨nofun, nofun⟩

theorem stopping_nil : Stopping [] := fun _ h => h

theorem stopping_cons {c : Char} (hw : isWord c = false) (hc : c ≠ ':') (cs : List Char) :
    Stopping (c :: cs) := by
  refine fun rest _ => ⟨fun d hd => ?_, fun d ds hd => ?_⟩
  · cases hd
    exact hw
  · exact absurd (List.cons.inj hd).1 hc

theorem stopping_colons (cs : List Char) : Stopping (':' :: ':' :: cs) := by
  refine fun rest _ => ⟨fun d hd => ?_, fun d ds hd => ?_⟩
  · cases hd
    decide
  · cases hd
    decide

theorem Stopping.append {text more : List Char} (ht : Stopping text) (hm : Stopping more) :
    Stopping (text ++ more) := by
  intro rest hr
  rw [List.append_assoc]
  exact ht _ (hm rest hr)

/-- In the text just these references are found, whatever stands behind it. -/
def Shows (text : List Char) (names : List String) : Prop :=
  ∀ rest, Stops rest → targets (text ++ rest) = names ++ targets rest

namespace Shows

variable {text more : List Char} {names others : List String}

theorem of_not_mem (h : '$' ∉ text) : Shows text [] := fun rest _ => targets_append h rest

theorem text_append (h : '$' ∉ text) (hm : Shows more names) : Shows (text ++ more) names := by
  intro rest hr
  rw [List.append_assoc, targets_append h, hm rest hr]

theorem append (ht : Shows text names) (hm : Shows more others) (hs : Stopping more) :
    Shows (text ++ more) (names ++ others) := by
  intro rest hr
  rw [List.append_assoc, ht _ (hs rest hr), hm rest hr, List.append_assoc]

theorem path {path : String} (h : IsPath path) : Shows ('$' :: path.toList) [path] := by
  obtain ⟨scope, name, hpath, hscope, hname⟩ := h
  intro rest hr
  have hplain : IsPlain scope name rest :=
    ⟨hscope, hname, hr.not_word, fun _ => hr.not_scope⟩
  have href : reference (path.toList ++ rest) = some (.ref scope name false, rest) :=
    reference_eq_some_iff.mpr ⟨by rw [hpath]; rfl, hplain⟩
  rw [List.cons_append, targets_reference href, ← hpath, String.ofList_toList]
  rfl

theorem targets_eq (h : Shows text names) : targets text = names := by
  have hnil : targets [] = [] := by simp [targets, scan, withText]
  simpa [hnil] using h [] stops_nil

end Shows

end Interlingua.Template
