import Interlingua.Proofs.Template.Reference

namespace Interlingua.Template

def spellAll (parts : List Part) : List Char := parts.flatMap Part.spelling

theorem spellAll_cons (p : Part) (ps : List Part) :
    spellAll (p :: ps) = p.spelling ++ spellAll ps := rfl

/-- A reference is written at the front of the text. -/
def StartsReference (cs : List Char) : Prop :=
  ∃ (p : Part) (rest : List Char), cs = p.spelling ++ rest ∧ p.IsReference rest

/-- No `$` of the text begins a reference when `rest` follows it. -/
def IsLiteral (text rest : List Char) : Prop :=
  ∀ before after, text = before ++ '$' :: after → ¬ StartsReference ('$' :: (after ++ rest))

/-- What a part must be when these parts follow it. -/
def Part.Fits : Part → List Part → Prop
  | .text t, after =>
    t ≠ "" ∧ (∀ u, after.head? ≠ some (.text u)) ∧ IsLiteral t.toList (spellAll after)
  | p, after => p.IsReference (spellAll after)

def Fitting (parts : List Part) : Prop :=
  ∀ before p after, parts = before ++ p :: after → p.Fits after

/-- The parts spell the template, and each is what it must be in its place. -/
structure Divides (parts : List Part) (template : String) : Prop where
  spelled : spellAll parts = template.toList
  fitting : Fitting parts

theorem startsReference_iff {cs : List Char} :
    StartsReference ('$' :: cs) ↔ ∃ p rest, reference cs = some (p, rest) := by
  simp only [StartsReference, reference_eq_some_iff]

theorem isLiteral_nil (rest : List Char) : IsLiteral [] rest := by
  intro before after h
  simp at h

theorem isLiteral_cons {c : Char} {text rest : List Char} (h : IsLiteral (c :: text) rest) :
    IsLiteral text rest ∧ (c = '$' → reference (text ++ rest) = none) := by
  constructor
  · intro before after ht
    exact h (c :: before) after (ht ▸ rfl)
  · rintro rfl
    have h := h [] text rfl
    rw [startsReference_iff] at h
    rw [Option.eq_none_iff_forall_not_mem]
    rintro ⟨p, tail⟩ hr
    exact h ⟨p, tail, hr⟩

theorem isLiteral_concat {c : Char} {text rest : List Char} (h : IsLiteral text (c :: rest))
    (hc : c = '$' → reference rest = none) : IsLiteral (text ++ [c]) rest := by
  intro before after ht
  obtain rfl | ⟨mid, d, rfl⟩ := after.eq_nil_or_concat
  · obtain ⟨-, hd⟩ := List.append_inj' ht rfl
    obtain rfl : c = '$' := by simpa using hd
    rw [List.nil_append, startsReference_iff, hc rfl]
    simp
  · rw [List.concat_eq_append, ← List.cons_append, ← List.append_assoc] at ht
    obtain ⟨htext, hd⟩ := List.append_inj' ht rfl
    obtain rfl : c = d := by simpa using hd
    rw [List.concat_eq_append, List.append_assoc]
    exact h before mid htext

theorem fitting_cons {p : Part} {ps : List Part} :
    Fitting (p :: ps) ↔ p.Fits ps ∧ Fitting ps := by
  constructor
  · intro h
    exact ⟨h [] p ps rfl, fun before q after hps => h (p :: before) q after (hps ▸ rfl)⟩
  · rintro ⟨hp, hps⟩ before q after h
    cases before with
    | nil =>
      cases h
      exact hp
    | cons r before => exact hps before q after (List.cons.inj h).2

theorem scan_cons {gathered cs : List Char} {c : Char} (h : c = '$' → reference cs = none) :
    scan gathered (c :: cs) = scan (c :: gathered) cs := by
  rw [scan]
  split
  · next hc =>
    split
    · next hr =>
      rw [h hc] at hr
      cases hr
    · rfl
  · rfl

theorem scan_append {text gathered rest : List Char} (h : IsLiteral text rest) :
    scan gathered (text ++ rest) = scan (text.reverse ++ gathered) rest := by
  induction text generalizing gathered with
  | nil => rfl
  | cons c text ih =>
    obtain ⟨ht, hc⟩ := isLiteral_cons h
    rw [List.cons_append, scan_cons hc, ih ht, List.reverse_cons, List.append_assoc]
    rfl

theorem scan_reference {gathered cs rest : List Char} {p : Part}
    (h : reference cs = some (p, rest)) :
    scan gathered ('$' :: cs) = withText gathered (p :: scan [] rest) := by
  rw [scan, if_pos rfl]
  split
  · next q tail hr =>
    rw [h] at hr
    cases hr
    rfl
  · next hr => simp [h] at hr

theorem Part.IsReference.fits {p : Part} {after : List Part}
    (h : p.IsReference (spellAll after)) : p.Fits after := by
  cases p with
  | text t => exact h.elim
  | _ => exact h

theorem Part.Fits.isReference {p : Part} {after : List Part} (h : p.Fits after)
    (hp : ∀ t, p ≠ .text t) : p.IsReference (spellAll after) := by
  cases p with
  | text t => exact absurd rfl (hp t)
  | _ => exact h

theorem scan_spelling {gathered rest : List Char} {p : Part} (h : p.IsReference rest) :
    scan gathered (p.spelling ++ rest) = withText gathered (p :: scan [] rest) := by
  have hr (cs : List Char) (hcs : p.spelling = '$' :: cs) :
      scan gathered (p.spelling ++ rest) = withText gathered (p :: scan [] rest) := by
    rw [hcs]
    exact scan_reference (reference_eq_some_iff.mpr ⟨by rw [hcs]; rfl, h⟩)
  cases p with
  | text t => exact h.elim
  | ref scope name braced => cases braced <;> exact hr _ rfl
  | expr source => exact hr _ rfl

theorem withText_of_ne_nil {gathered : List Char} (h : gathered ≠ []) (parts : List Part) :
    withText gathered parts = .text (String.ofList gathered.reverse) :: parts := by
  cases gathered with
  | nil => exact absurd rfl h
  | cons c cs => rfl

theorem scan_gathered {gathered : List Char} {parts : List Part} (h : Fitting parts)
    (hhead : ∀ u, parts.head? ≠ some (.text u)) :
    scan gathered (spellAll parts) = withText gathered (scan [] (spellAll parts)) := by
  cases parts with
  | nil => simp [spellAll, scan, withText]
  | cons p parts =>
    have hp : p.IsReference (spellAll parts) := by
      refine (fitting_cons.mp h).1.isReference ?_
      rintro t rfl
      exact hhead t rfl
    rw [spellAll_cons, scan_spelling hp, scan_spelling hp]
    rfl

theorem scan_spellAll {parts : List Part} (h : Fitting parts) :
    scan [] (spellAll parts) = parts := by
  induction parts with
  | nil => simp [spellAll, scan, withText]
  | cons p parts ih =>
    obtain ⟨hp, hparts⟩ := fitting_cons.mp h
    cases p with
    | text t =>
      obtain ⟨hne, hhead, hliteral⟩ := hp
      have ht : t.toList.reverse ≠ [] := by simpa using hne
      rw [spellAll_cons, Part.spelling, scan_append hliteral, List.append_nil,
        scan_gathered hparts hhead, ih hparts, withText_of_ne_nil ht, List.reverse_reverse,
        String.ofList_toList]
    | ref scope name braced =>
      have hr : (Part.ref scope name braced).IsReference (spellAll parts) :=
        hp.isReference fun t ht => by cases ht
      exact (scan_spelling hr).trans (by rw [withText, ih hparts])
    | expr source =>
      have hr : (Part.expr source).IsReference (spellAll parts) :=
        hp.isReference fun t ht => by cases ht
      exact (scan_spelling hr).trans (by rw [withText, ih hparts])

theorem spellAll_withText (gathered : List Char) (parts : List Part) :
    spellAll (withText gathered parts) = gathered.reverse ++ spellAll parts := by
  cases gathered with
  | nil => rfl
  | cons c cs =>
    change (String.ofList (c :: cs).reverse).toList ++ spellAll parts = _
    rw [String.toList_ofList]

theorem fitting_withText {gathered : List Char} {parts : List Part} (h : Fitting parts)
    (hhead : ∀ u, parts.head? ≠ some (.text u))
    (hliteral : IsLiteral gathered.reverse (spellAll parts)) :
    Fitting (withText gathered parts) := by
  cases gathered with
  | nil => exact h
  | cons c cs =>
    refine fitting_cons.mpr ⟨⟨?_, hhead, ?_⟩, h⟩
    · simp
    · rwa [String.toList_ofList]

/-- What is found divides the text, also the text that is gathered already. -/
theorem scan_divides (gathered cs : List Char) (h : IsLiteral gathered.reverse cs) :
    spellAll (scan gathered cs) = gathered.reverse ++ cs ∧ Fitting (scan gathered cs) := by
  fun_induction scan gathered cs with
  | case1 gathered =>
    refine ⟨spellAll_withText gathered [], fitting_withText ?_ ?_ h⟩
    · intro before p after hnil
      simp at hnil
    · simp
  | case2 gathered cs p rest hr _ ih =>
    obtain ⟨hcs, hp⟩ := reference_eq_some_iff.mp hr
    obtain ⟨hspelled, hfitting⟩ := ih (isLiteral_nil rest)
    rw [List.reverse_nil, List.nil_append] at hspelled
    have hall : spellAll (p :: scan [] rest) = '$' :: cs := by
      rw [spellAll_cons, hspelled, hcs]
    refine ⟨by rw [spellAll_withText, hall], fitting_withText ?_ ?_ (hall ▸ h)⟩
    · exact fitting_cons.mpr ⟨Part.IsReference.fits (hspelled.symm ▸ hp), hfitting⟩
    · intro u hu
      cases hu
      exact hp
  | case3 gathered cs hr ih =>
    have h := isLiteral_concat h fun _ => hr
    rw [← List.reverse_cons] at h
    simpa using ih h
  | case4 gathered c cs hc ih =>
    have h := isLiteral_concat h fun hd => absurd hd hc
    rw [← List.reverse_cons] at h
    simpa using ih h

theorem fitting_parts (template : String) : Fitting (Template.parts template) :=
  (scan_divides [] template.toList (isLiteral_nil _)).2

/-- The parts found are the one division of the template. -/
theorem divides_iff (parts : List Part) (template : String) :
    Divides parts template ↔ parts = Template.parts template := by
  constructor
  · rintro ⟨hspelled, hfitting⟩
    rw [Template.parts, ← hspelled, scan_spellAll hfitting]
  · rintro rfl
    obtain ⟨hspelled, hfitting⟩ := scan_divides [] template.toList (isLiteral_nil _)
    exact ⟨hspelled, hfitting⟩

end Interlingua.Template
