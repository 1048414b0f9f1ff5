import Interlingua.Proofs.Template.Parts

namespace Interlingua.Template

/-- A character that a literal denotes, or what is embedded in it. -/
inductive Piece (α : Type) where
  | char (c : Char)
  | embedded (content : α)

variable {α : Type} {piece? : List Char → Option (Piece α × List Char)}

/-- The pieces in front of the closing quote, and what follows it. -/
def readPieces (piece? : List Char → Option (Piece α × List Char)) :
    List Char → Option (List (Piece α) × List Char)
  | [] => none
  | c :: cs =>
    if c = '\"' then some ([], cs)
    else
      match piece? (c :: cs) with
      | none => none
      | some (piece, rest) =>
        if rest.length ≤ cs.length then
          (readPieces piece? rest).map fun r => (piece :: r.1, r.2)
        else none
termination_by cs => cs.length
decreasing_by simp_wf; omega

theorem readPieces_quote (rest : List Char) :
    readPieces piece? ('\"' :: rest) = some ([], rest) := by
  rw [readPieces, if_pos rfl]

theorem readPieces_cons {c : Char} {cs rest : List Char} {piece : Piece α}
    (h : piece? (c :: cs) = some (piece, rest)) (hc : c ≠ '\"') (hl : rest.length ≤ cs.length) :
    readPieces piece? (c :: cs) = (readPieces piece? rest).map fun r => (piece :: r.1, r.2) := by
  rw [readPieces, if_neg hc, h]
  exact if_pos hl

theorem readPieces_eq_some_cons {cs rest : List Char} {piece : Piece α} {pieces : List (Piece α)}
    (h : readPieces piece? cs = some (piece :: pieces, rest)) :
    ∃ tail, piece? cs = some (piece, tail) ∧ readPieces piece? tail = some (pieces, rest) := by
  cases cs with
  | nil => simp [readPieces] at h
  | cons c cs =>
    rw [readPieces] at h
    split at h
    · cases h
    · split at h
      · cases h
      · next first tail hp =>
        split at h
        · obtain ⟨⟨more, last⟩, hr, he⟩ := Option.map_eq_some_iff.mp h
          cases he
          exact ⟨tail, hp, hr⟩
        · cases h

/-- In front of `rest` the text is read as these pieces, and reading goes on behind it. -/
def Passes (piece? : List Char → Option (Piece α × List Char)) (text : List Char)
    (pieces : List (Piece α)) (rest : List Char) : Prop :=
  readPieces piece? (text ++ rest) =
    (readPieces piece? rest).map fun r => (pieces ++ r.1, r.2)

namespace Passes

variable {text more rest : List Char} {pieces others : List (Piece α)}

theorem nil (rest : List Char) : Passes piece? [] [] rest := by
  simp [Passes]

theorem append (h : Passes piece? text pieces (more ++ rest))
    (hm : Passes piece? more others rest) :
    Passes piece? (text ++ more) (pieces ++ others) rest := by
  unfold Passes at *
  rw [List.append_assoc, h, hm, Option.map_map]
  simp [Function.comp_def]

theorem single {piece : Piece α} (h : piece? (text ++ rest) = some (piece, rest))
    (hne : text ≠ []) (hq : text.head? ≠ some '\"') : Passes piece? text [piece] rest := by
  cases text with
  | nil => exact absurd rfl hne
  | cons c cs =>
    have hc : c ≠ '\"' := fun hc => hq (congrArg some hc)
    exact readPieces_cons h hc (by simp)

theorem flatMap {β : Type} {written : β → List Char} {meant : β → List (Piece α)} {bs : List β}
    (h : ∀ b ∈ bs, ∀ rest, Passes piece? (written b) (meant b) rest) (rest : List Char) :
    Passes piece? (bs.flatMap written) (bs.flatMap meant) rest := by
  induction bs with
  | nil => exact nil rest
  | cons b bs ih =>
    obtain ⟨hb, hbs⟩ := List.forall_mem_cons.mp h
    exact (hb _).append (ih hbs)

theorem chars {written : Char → List Char}
    (h : ∀ c rest, Passes piece? (written c) [.char c] rest) (text rest : List Char) :
    Passes piece? (text.flatMap written) (text.map .char) rest := by
  rw [List.map_eq_flatMap]
  exact flatMap (fun c _ => h c) rest

theorem read (h : Passes piece? text pieces ('\"' :: rest)) :
    readPieces piece? (text ++ '\"' :: rest) = some (pieces, rest) := by
  unfold Passes at h
  simp [h, readPieces_quote]

theorem rest_of_read {tail : List Char} (h : Passes piece? text pieces rest)
    (hr : readPieces piece? (text ++ rest) = some (pieces ++ others, tail)) :
    readPieces piece? rest = some (others, tail) := by
  unfold Passes at h
  rw [h, Option.map_eq_some_iff] at hr
  obtain ⟨⟨found, last⟩, hf, he⟩ := hr
  obtain ⟨hp, rfl⟩ := Prod.mk.inj he
  have hp : found = others := List.append_cancel_left hp
  rw [hf, hp]

end Passes

end Interlingua.Template
