import Interlingua.Proofs.Template.Literal
import Interlingua.Render.PowerShell

namespace Interlingua.PowerShell

open Template (Part Piece readPieces Passes Fitting IsPlain fullName spellAll withText)
open Text (isWord)

def unescape : Char → Char
  | 'n' => '\n'
  | 'r' => '\r'
  | 't' => '\t'
  | '0' => '\x00'
  | c => c

/-- The character or the reference at the front of the text. -/
def piece? : List Char → Option (Piece Part × List Char)
  | [] => none
  | ['\x60'] => none
  | '\x60' :: c :: cs => some (.char (unescape c), cs)
  | '$' :: cs =>
    match Template.reference cs with
    | some (part, rest) => some (.embedded part, rest)
    | none => some (.char '$', cs)
  | c :: cs => some (.char c, cs)

/-- Runs of characters are text, `text` being gathered already. -/
def gather (text : List Char) : List (Piece Part) → List Part
  | [] => withText text []
  | .char c :: pieces => gather (c :: text) pieces
  | .embedded part :: pieces => withText text (part :: gather [] pieces)

/-- The parts of a literal in double quotes, and what follows it. -/
def readExpandable : List Char → Option (List Part × List Char)
  | '\"' :: cs => (readPieces piece? cs).map fun r => (gather [] r.1, r.2)
  | _ => none

def pieces : Part → List (Piece Part)
  | .text t => t.toList.map .char
  | part => [.embedded part]

theorem piece?_plain {c : Char} (hb : c ≠ '\x60') (hd : c ≠ '$') (cs : List Char) :
    piece? (c :: cs) = some (.char c, cs) := by
  unfold piece?
  split <;> simp_all

theorem escape_cases (c : Char) :
    (∃ d, escape c = ['\x60', d] ∧ unescape d = c) ∨
      escape c = [c] ∧ c ≠ '\x60' ∧ c ≠ '\"' ∧ c ≠ '$' := by
  unfold escape
  split
  case h_8 => simp_all
  all_goals exact .inl ⟨_, rfl, rfl⟩

theorem passes_escape (c : Char) (rest : List Char) : Passes piece? (escape c) [.char c] rest := by
  obtain ⟨d, he, rfl⟩ | ⟨he, hb, hq, hd⟩ := escape_cases c
  · rw [he]
    exact .single rfl (by simp) (by simp)
  · rw [he]
    exact .single (piece?_plain hb hd rest) (by simp) (by simpa using hq)

theorem passes_reference {p : Part} {rest : List Char} (h : p.IsReference rest) :
    Passes piece? p.spelling [.embedded p] rest := by
  have hp (cs : List Char) (hcs : p.spelling = '$' :: cs) :
      Passes piece? p.spelling [.embedded p] rest := by
    have hr : Template.reference (cs ++ rest) = some (p, rest) :=
      Template.reference_eq_some_iff.mpr ⟨by rw [hcs]; rfl, h⟩
    refine .single ?_ (by simp [hcs]) (by simp [hcs])
    rw [hcs, List.cons_append, piece?, hr]
  cases p with
  | text t => exact h.elim
  | ref scope name braced => cases braced <;> exact hp _ rfl
  | expr source => exact hp _ rfl

/-- No name goes on in the text. -/
def Stops (cs : List Char) : Prop := ∀ c ∈ cs.head?, isWord c = false ∧ c ≠ ':'

theorem stops_written {parts : List Part} (h : ∀ t, parts.head? ≠ some (.text t))
    (rest : List Char) : Stops (parts.flatMap part ++ '\"' :: rest) := by
  intro c hc
  cases parts with
  | nil =>
    cases hc
    decide
  | cons p parts =>
    cases p with
    | text t => exact absurd rfl (h t)
    | ref scope name braced =>
      cases braced <;> cases hc <;> decide
    | expr source =>
      cases hc
      decide

theorem flatMap_escape_eq_cons {xs ws ds : List Char} {c : Char}
    (h : xs.flatMap escape ++ ws = c :: ds) (hc : isWord c ∨ c = ':') (hws : Stops ws) :
    ∃ ys, xs = c :: ys ∧ ds = ys.flatMap escape ++ ws := by
  cases xs with
  | nil =>
    rw [List.flatMap_nil, List.nil_append] at h
    obtain ⟨hword, hcolon⟩ := hws c (by rw [h]; rfl)
    rw [hword] at hc
    exact absurd hc (by simp [hcolon])
  | cons x xs =>
    rw [List.flatMap_cons, List.append_assoc] at h
    obtain ⟨d, he, -⟩ | ⟨he, -⟩ := escape_cases x
    · -- An escape begins with a backtick, which goes on with no name.
      rw [he] at h
      obtain ⟨rfl, -⟩ := List.cons.inj h
      exact absurd hc (by decide)
    · rw [he] at h
      obtain ⟨rfl, hds⟩ := List.cons.inj h
      exact ⟨xs, rfl, hds.symm⟩

theorem written_eq {parts : List Part} (h : Fitting parts) (rest : List Char) :
    ∃ xs vs ws, spellAll parts = xs ++ vs ∧
      parts.flatMap part ++ '\"' :: rest = xs.flatMap escape ++ ws ∧ Stops ws := by
  have hno (hhead : ∀ t, parts.head? ≠ some (.text t)) :
      ∃ xs vs ws, spellAll parts = xs ++ vs ∧
        parts.flatMap part ++ '\"' :: rest = xs.flatMap escape ++ ws ∧ Stops ws :=
    ⟨[], _, _, rfl, rfl, stops_written hhead rest⟩
  cases parts with
  | nil => exact hno (by simp)
  | cons p parts =>
    cases p with
    | text t =>
      obtain ⟨⟨-, hhead, -⟩, -⟩ := Template.fitting_cons.mp h
      exact ⟨t.toList, _, _, rfl, List.append_assoc .., stops_written hhead rest⟩
    | _ => exact hno (by simp)

theorem isPlain_written {scope : Option String} {name : String} {parts : List Part}
    (hf : Fitting parts) (h : IsPlain scope name (spellAll parts)) (rest : List Char) :
    IsPlain scope name (parts.flatMap part ++ '\"' :: rest) := by
  obtain ⟨xs, vs, ws, hs, hw, hstops⟩ := written_eq hf rest
  rw [hs] at h
  rw [hw]
  refine ⟨h.scope_isName, h.name_isName, ?_, ?_⟩
  · intro c hc
    cases hword : isWord c with
    | false => rfl
    | true =>
      obtain ⟨ds, hds⟩ := List.head?_eq_some_iff.mp hc
      obtain ⟨ys, rfl, -⟩ := flatMap_escape_eq_cons hds (.inl hword) hstops
      exact hword.symm.trans (h.not_word c rfl)
  · intro hnone c cs hcs
    cases hword : isWord c with
    | false => rfl
    | true =>
      obtain ⟨ys, rfl, hys⟩ := flatMap_escape_eq_cons hcs (.inr rfl) hstops
      obtain ⟨zs, rfl, -⟩ := flatMap_escape_eq_cons hys.symm (.inl hword) hstops
      exact hword.symm.trans (h.not_scope hnone c _ rfl)

theorem passes_part {p : Part} {parts : List Part} (hp : p.Fits parts) (hf : Fitting parts)
    (rest : List Char) :
    Passes piece? (part p) (pieces p) (parts.flatMap part ++ '\"' :: rest) := by
  cases p with
  | text t => exact .chars passes_escape t.toList _
  | ref scope name braced =>
    have hs : part (.ref scope name braced) = Part.spelling (.ref scope name braced) := by
      cases scope <;> cases braced <;> simp [part, reference, Part.spelling, fullName]
    rw [hs]
    cases braced with
    | false => exact passes_reference (p := .ref scope name false) (isPlain_written hf hp rest)
    | true => exact passes_reference (p := .ref scope name true) hp
  | expr source => exact passes_reference (p := .expr source) hp

theorem passes_parts {parts : List Part} (h : Fitting parts) (rest : List Char) :
    Passes piece? (parts.flatMap part) (parts.flatMap pieces) ('\"' :: rest) := by
  induction parts with
  | nil => exact .nil _
  | cons p parts ih =>
    obtain ⟨hp, hparts⟩ := Template.fitting_cons.mp h
    exact (passes_part hp hparts rest).append (ih hparts)

theorem gather_chars (text cs : List Char) (more : List (Piece Part)) :
    gather text (cs.map .char ++ more) = gather (cs.reverse ++ text) more := by
  induction cs generalizing text with
  | nil => rfl
  | cons c cs ih =>
    rw [List.map_cons, List.cons_append, gather, ih, List.reverse_cons, List.append_assoc]
    rfl

theorem gather_pieces_of_head (text : List Char) {parts : List Part}
    (h : ∀ t, parts.head? ≠ some (.text t)) :
    gather text (parts.flatMap pieces) = withText text (gather [] (parts.flatMap pieces)) := by
  cases parts with
  | nil => simp [gather, withText]
  | cons p parts =>
    cases p with
    | text t => exact absurd rfl (h t)
    | _ => rfl

theorem gather_pieces {parts : List Part} (h : Fitting parts) :
    gather [] (parts.flatMap pieces) = parts := by
  induction parts with
  | nil => rfl
  | cons p parts ih =>
    obtain ⟨hp, hparts⟩ := Template.fitting_cons.mp h
    have ih := ih hparts
    cases p with
    | text t =>
      obtain ⟨hne, hhead, -⟩ := hp
      have ht : t.toList.reverse ≠ [] := by simpa using hne
      rw [List.flatMap_cons, pieces, gather_chars, List.append_nil, gather_pieces_of_head _ hhead,
        ih, Template.withText_of_ne_nil ht, List.reverse_reverse, String.ofList_toList]
    | ref scope name braced => exact congrArg (Part.ref scope name braced :: ·) ih
    | expr source => exact congrArg (Part.expr source :: ·) ih

theorem readExpandable_expandable (template : String) (rest : List Char) :
    readExpandable (expandable template ++ rest) = some (Template.parts template, rest) := by
  have hf := Template.fitting_parts template
  have hread := (passes_parts hf rest).read
  have htext : expandable template ++ rest =
      '\"' :: ((Template.parts template).flatMap part ++ '\"' :: rest) := by
    simp [expandable]
  rw [htext, readExpandable, hread, Option.map_some, gather_pieces hf]

/-- The text of a template is read as its parts and ends with the quote that ends the literal,
whatever comes behind it. -/
theorem readExpandable_render (layout : Layout) (template : String) (rest : List Char) :
    readExpandable ((render layout (.expr (.template template))).toList ++ rest) =
      some (Template.parts template, rest) := by
  have hr : render layout (.expr (.template template)) = String.ofList (expandable template) :=
    layOut_write layout _
  rw [hr, String.toList_ofList, readExpandable_expandable]

end Interlingua.PowerShell
