import Interlingua.Proofs.Template.Literal
import Interlingua.Render.CSharp

namespace Interlingua.CSharp

open Template (Part Piece readPieces Passes Nested enclosedBy enclosedBy_eq_some_iff)

def unescape? : Char → Option Char
  | '\\' => some '\\'
  | '\"' => some '\"'
  | '\'' => some '\''
  | '0' => some '\x00'
  | 'a' => some '\x07'
  | 'b' => some '\x08'
  | 'f' => some '\x0c'
  | 'n' => some '\n'
  | 'r' => some '\r'
  | 't' => some '\t'
  | 'v' => some '\x0b'
  | _ => none

/-- The character or the hole at the front of the text. -/
def piece? : List Char → Option (Piece (List Char) × List Char)
  | [] => none
  | ['\\'] => none
  | '\\' :: c :: cs => (unescape? c).map fun d => (.char d, cs)
  | '{' :: '{' :: cs => some (.char '{', cs)
  | '{' :: cs => (enclosedBy '{' '}' 0 cs).map fun r => (.embedded r.1, r.2)
  | '}' :: '}' :: cs => some (.char '}', cs)
  | '}' :: _ => none
  | c :: cs => some (.char c, cs)

def readInterpolated : List Char → Option (List (Piece (List Char)) × List Char)
  | '$' :: '\"' :: cs => readPieces piece? cs
  | _ => none

def environmentCall (name : String) : List Char :=
  "Environment.GetEnvironmentVariable(".toList ++ stringLiteral name ++ [')']

/-- The call that is written for it, with the name as it is. -/
def writtenCall (name : String) : List Char :=
  "Environment.GetEnvironmentVariable(\"".toList ++ name.toList ++ "\")".toList

/-- What a part stands for: characters, or a hole. -/
def meant : Part → List (Piece (List Char))
  | .text t => t.toList.map .char
  | .ref none name _ => [.embedded name.toList]
  | .ref (some scope) name _ =>
    if plainScopes.any (Text.sameName · scope) then [.embedded name.toList]
    else if Text.sameName "env" scope then [.embedded (environmentCall name)]
    else ('$' :: (scope.toList ++ ':' :: name.toList)).map .char
  | .expr source => [.embedded (source.toList.filter (· ≠ '$'))]

/-- What can stand in a hole. -/
structure IsHole (source : List Char) : Prop where
  nonempty : source ≠ []
  not_doubled : source.head? ≠ some '{'
  nested : Nested '{' '}' 0 source

/-- A part is read as what it stands for. -/
structure IsReadable (p : Part) : Prop where
  isHole : ∀ source, .embedded source ∈ meant p → IsHole source
  isLiteral : ∀ scope name braced, p = .ref (some scope) name braced →
    Text.sameName "env" scope → ∀ c ∈ name.toList, escape c = [c]

theorem piece?_plain {c : Char} (hb : c ≠ '\\') (ho : c ≠ '{') (hc : c ≠ '}') (cs : List Char) :
    piece? (c :: cs) = some (.char c, cs) := by
  unfold piece?
  split <;> simp_all

theorem piece?_brace {c : Char} (hc : c ≠ '{') (cs : List Char) :
    piece? ('{' :: c :: cs) =
      (enclosedBy '{' '}' 0 (c :: cs)).map fun r => (.embedded r.1, r.2) := by
  unfold piece?
  split <;> grind

theorem escape_cases (c : Char) :
    (∃ d, escape c = ['\\', d] ∧ unescape? d = some c) ∨
      escape c = [c] ∧ c ≠ '\\' ∧ c ≠ '\"' := by
  unfold escape
  split
  case h_6 => simp_all
  all_goals exact .inl ⟨_, rfl, rfl⟩

theorem passes_escapeInterpolated (c : Char) (rest : List Char) :
    Passes piece? (escapeInterpolated c) [.char c] rest := by
  unfold escapeInterpolated
  split
  · exact .single rfl (by simp) (by simp)
  · exact .single rfl (by simp) (by simp)
  · exact .single rfl (by simp) (by simp)
  · next ho hc _ =>
    obtain ⟨d, he, hd⟩ | ⟨he, hb, hq⟩ := escape_cases c
    · rw [he]
      refine .single ?_ (by simp) (by simp)
      change (unescape? d).map _ = _
      rw [hd]
      rfl
    · rw [he]
      exact .single (piece?_plain hb ho hc rest) (by simp) (by simpa using hq)

theorem passes_hole {source : List Char} (h : IsHole source) (rest : List Char) :
    Passes piece? (hole source) [.embedded source] rest := by
  refine .single ?_ (by simp [hole]) (by simp [hole])
  have he : enclosedBy '{' '}' 0 (source ++ '}' :: rest) = some (source, rest) :=
    (enclosedBy_eq_some_iff (by decide)).mpr ⟨rfl, h.nested⟩
  cases source with
  | nil => exact absurd rfl h.nonempty
  | cons c cs =>
    have hc : c ≠ '{' := fun hc => h.not_doubled (congrArg some hc)
    have ht : hole (c :: cs) ++ rest = '{' :: c :: (cs ++ '}' :: rest) := by simp [hole]
    rw [ht, piece?_brace hc]
    rw [List.cons_append] at he
    rw [he]
    rfl

theorem isHole_of_piece? {cs source tail : List Char}
    (h : piece? ('{' :: cs) = some (.embedded source, tail)) (hne : source ≠ []) :
    IsHole source ∧ cs = source ++ '}' :: tail := by
  cases cs with
  | nil => simp [piece?, enclosedBy] at h
  | cons c cs =>
    have hc : c ≠ '{' := by
      rintro rfl
      simp [piece?] at h
    rw [piece?_brace hc] at h
    obtain ⟨⟨found, rest⟩, he, hp⟩ := Option.map_eq_some_iff.mp h
    cases hp
    obtain ⟨hcs, hn⟩ := (enclosedBy_eq_some_iff (by decide)).mp he
    refine ⟨⟨hne, ?_, hn⟩, hcs⟩
    cases found with
    | nil => exact absurd rfl hne
    | cons d ds =>
      obtain ⟨rfl, -⟩ := List.cons.inj hcs
      simpa using hc

theorem ne_backslashes_append (cs us vs : List Char) (n : Nat) :
    cs ++ '\"' :: us ≠ List.replicate (n + 1) '\\' ++ (cs.flatMap escape ++ '\"' :: vs) := by
  -- The first character of `cs` is a backslash, whose escape puts one more in front of the rest.
  induction cs generalizing n with
  | nil => simp [List.replicate_succ]
  | cons c cs ih =>
    intro h
    obtain ⟨rfl, h⟩ := List.cons.inj h
    refine ih (n + 1) (h.trans ?_)
    simp [escape, List.replicate_succ', List.append_assoc]

theorem escape_eq_of_append_eq {cs us vs : List Char}
    (h : cs ++ '\"' :: us = cs.flatMap escape ++ '\"' :: vs) : ∀ c ∈ cs, escape c = [c] := by
  induction cs with
  | nil => simp
  | cons c cs ih =>
    rw [List.flatMap_cons, List.append_assoc] at h
    obtain ⟨d, he, -⟩ | ⟨he, -⟩ := escape_cases c
    · rw [he] at h
      obtain ⟨rfl, htail⟩ := List.cons.inj h
      obtain rfl : d = '\\' := by simpa [escape] using he.symm
      exact absurd htail (ne_backslashes_append cs us vs 0)
    · rw [he] at h
      exact List.forall_mem_cons.mpr ⟨he, ih (List.cons.inj h).2⟩

theorem flatMap_escape_eq {cs : List Char} (h : ∀ c ∈ cs, escape c = [c]) :
    cs.flatMap escape = cs := by
  induction cs with
  | nil => rfl
  | cons c cs ih =>
    obtain ⟨hc, hcs⟩ := List.forall_mem_cons.mp h
    rw [List.flatMap_cons, hc, ih hcs]
    rfl

theorem not_env_of_plain {scope : String} (h : plainScopes.any (Text.sameName · scope)) :
    ¬ Text.sameName "env" scope := by
  obtain ⟨plain, hmem, hsame⟩ := List.any_eq_true.mp h
  have hplain : ∀ plain ∈ plainScopes, Text.fold "env" ≠ Text.fold plain := by decide
  rw [Text.sameName_iff] at hsame ⊢
  rw [← hsame]
  exact hplain plain hmem

theorem writtenCall_append (name : String) (us : List Char) :
    writtenCall name ++ us =
      "Environment.GetEnvironmentVariable(\"".toList ++ (name.toList ++ '\"' :: ')' :: us) := by
  have hend : "\")".toList = ['\"', ')'] := by decide
  unfold writtenCall
  rw [hend, List.append_assoc, List.append_assoc, List.cons_append, List.cons_append,
    List.nil_append]

theorem environmentCall_append (name : String) (us : List Char) :
    environmentCall name ++ us =
      "Environment.GetEnvironmentVariable(\"".toList ++
        (name.toList.flatMap escape ++ '\"' :: ')' :: us) := by
  have hopen : "Environment.GetEnvironmentVariable(\"".toList =
      "Environment.GetEnvironmentVariable(".toList ++ ['\"'] := by decide
  unfold environmentCall stringLiteral
  rw [hopen]
  simp only [List.append_assoc, List.cons_append, List.nil_append]

theorem escape_eq_of_call {name : String} {us vs : List Char}
    (h : writtenCall name ++ us = environmentCall name ++ vs) :
    ∀ c ∈ name.toList, escape c = [c] := by
  rw [writtenCall_append, environmentCall_append] at h
  exact escape_eq_of_append_eq (List.append_cancel_left h)

theorem writtenCall_eq_iff (name : String) :
    writtenCall name = environmentCall name ↔ ∀ c ∈ name.toList, escape c = [c] := by
  constructor
  · intro h
    exact escape_eq_of_call (congrArg (· ++ []) h)
  · intro h
    have ht : writtenCall name ++ [] = environmentCall name ++ [] := by
      rw [writtenCall_append, environmentCall_append, flatMap_escape_eq h]
    rwa [List.append_nil, List.append_nil] at ht

theorem isReadable_iff_of_hole {p : Part} {source : List Char} (hm : meant p = [.embedded source]) :
    IsReadable p ↔ IsHole source ∧ ∀ scope name braced, p = .ref (some scope) name braced →
      Text.sameName "env" scope → ∀ c ∈ name.toList, escape c = [c] := by
  constructor
  · intro h
    exact ⟨h.isHole source (by simp [hm]), h.isLiteral⟩
  · rintro ⟨hs, hl⟩
    refine ⟨fun found hf => ?_, hl⟩
    obtain rfl : found = source := by simpa [hm] using hf
    exact hs

/-- The part is written as a hole with a source that may be another than it should. -/
structure WrittenAsHole (p : Part) (written source : List Char) : Prop where
  part_eq : part p = hole written
  meant_eq : meant p = [.embedded source]
  isReadable_iff : IsReadable p ↔ IsHole source ∧ written = source
  eq_of_append : ∀ us vs, written ++ '}' :: us = source ++ '}' :: vs → written = source

theorem WrittenAsHole.of_ne_env {p : Part} {source : List Char} (hp : part p = hole source)
    (hm : meant p = [.embedded source])
    (he : ∀ scope name braced, p = .ref (some scope) name braced → ¬ Text.sameName "env" scope) :
    WrittenAsHole p source source := by
  refine ⟨hp, hm, ?_, fun _ _ _ => rfl⟩
  refine (isReadable_iff_of_hole hm).trans (and_congr_right' (iff_of_true ?_ rfl))
  intro scope name braced hscope henv
  exact absurd henv (he scope name braced hscope)

theorem WrittenAsHole.of_env {scope name : String} {braced : Bool}
    (hplain : ¬ plainScopes.any (Text.sameName · scope)) (henv : Text.sameName "env" scope) :
    WrittenAsHole (.ref (some scope) name braced) (writtenCall name) (environmentCall name) := by
  have hm : meant (.ref (some scope) name braced) = [.embedded (environmentCall name)] :=
    (if_neg hplain).trans (if_pos henv)
  refine ⟨(if_neg hplain).trans (if_pos henv), hm, ?_, fun us vs h => ?_⟩
  · rw [isReadable_iff_of_hole hm, writtenCall_eq_iff]
    refine and_congr_right' ⟨fun h => h scope name braced rfl henv, ?_⟩
    rintro h _ _ _ ⟨⟩ -
    exact h
  · exact (writtenCall_eq_iff name).mpr (escape_eq_of_call h)

theorem part_cases (p : Part) :
    (∃ cs : List Char, part p = cs.flatMap escapeInterpolated ∧ meant p = cs.map .char ∧
        IsReadable p) ∨
      ∃ written source, WrittenAsHole p written source := by
  cases p with
  | text t => exact .inl ⟨t.toList, rfl, rfl, by simp [meant], by simp⟩
  | expr source => exact .inr ⟨_, _, .of_ne_env rfl rfl (by simp)⟩
  | ref scope name braced =>
    cases scope with
    | none => exact .inr ⟨_, _, .of_ne_env rfl rfl (by simp)⟩
    | some scope =>
      by_cases hplain : plainScopes.any (Text.sameName · scope)
      · refine .inr ⟨_, _, .of_ne_env (if_pos hplain) (if_pos hplain) ?_⟩
        rintro _ _ _ ⟨⟩
        exact not_env_of_plain hplain
      · by_cases henv : Text.sameName "env" scope
        · exact .inr ⟨_, _, .of_env hplain henv⟩
        · have hm : meant (.ref (some scope) name braced) =
              ('$' :: (scope.toList ++ ':' :: name.toList)).map .char :=
            (if_neg hplain).trans (if_neg henv)
          refine .inl ⟨_, (if_neg hplain).trans (if_neg henv), hm, by simp [hm], ?_⟩
          rintro _ _ _ ⟨⟩ h
          exact absurd h henv

theorem passes_part {p : Part} (h : IsReadable p) (rest : List Char) :
    Passes piece? (part p) (meant p) rest := by
  obtain ⟨cs, hp, hm, -⟩ | ⟨written, source, hw⟩ := part_cases p
  · rw [hp, hm]
    exact .chars passes_escapeInterpolated cs rest
  · obtain ⟨hh, rfl⟩ := hw.isReadable_iff.mp h
    rw [hw.part_eq, hw.meant_eq]
    exact passes_hole hh rest

theorem isReadable_of_read {parts : List Part} {rest : List Char}
    (h : readPieces piece? (parts.flatMap part ++ '\"' :: rest) = some (parts.flatMap meant, rest))
    (hne : ∀ source, .embedded source ∈ parts.flatMap meant → source ≠ []) :
    ∀ p ∈ parts, IsReadable p := by
  induction parts with
  | nil => simp
  | cons p parts ih =>
    rw [List.flatMap_cons, List.flatMap_cons, List.append_assoc] at h
    rw [List.flatMap_cons] at hne
    have hparts (source : List Char) (hs : .embedded source ∈ parts.flatMap meant) : source ≠ [] :=
      hne source (List.mem_append_right _ hs)
    rw [List.forall_mem_cons]
    obtain ⟨cs, hp, hm, hr⟩ | ⟨written, source, hw⟩ := part_cases p
    · have hpass : Passes piece? (part p) (meant p) (parts.flatMap part ++ '\"' :: rest) := by
        rw [hp, hm]
        exact .chars passes_escapeInterpolated cs _
      exact ⟨hr, ih (hpass.rest_of_read h) hparts⟩
    · rw [hw.part_eq, hw.meant_eq] at h
      obtain ⟨tail, hpiece, hread⟩ := Template.readPieces_eq_some_cons h
      have hs : source ≠ [] := hne source (by simp [hw.meant_eq])
      have htext : hole written ++ (parts.flatMap part ++ '\"' :: rest) =
          '{' :: (written ++ '}' :: (parts.flatMap part ++ '\"' :: rest)) := by simp [hole]
      rw [htext] at hpiece
      obtain ⟨hhole, heq⟩ := isHole_of_piece? hpiece hs
      obtain rfl := hw.eq_of_append _ _ heq
      obtain rfl : parts.flatMap part ++ '\"' :: rest = tail := by simpa using heq
      exact ⟨hw.isReadable_iff.mpr ⟨hhole, rfl⟩, ih hread hparts⟩

theorem render_template (layout : Layout) (template : String) :
    (render layout (.expr (.template template))).toList = interpolated template :=
  toList_layOut_write layout _

/-- The text of a template is read as what its parts stand for, without empty holes, and ends with
the quote that ends the literal if and only if each of its parts can be read. -/
theorem readInterpolated_render_iff (layout : Layout) (template : String) (rest : List Char) :
    (readInterpolated ((render layout (.expr (.template template))).toList ++ rest) =
        some ((Template.parts template).flatMap meant, rest) ∧
      ∀ source, .embedded source ∈ (Template.parts template).flatMap meant → source ≠ []) ↔
      ∀ p ∈ Template.parts template, IsReadable p := by
  have htext : interpolated template ++ rest =
      '$' :: '\"' :: ((Template.parts template).flatMap part ++ '\"' :: rest) := by
    simp [interpolated]
  rw [render_template, htext, readInterpolated]
  constructor
  · rintro ⟨h, hne⟩
    exact isReadable_of_read h hne
  · intro h
    refine ⟨(Passes.flatMap (fun p hp => passes_part (h p hp)) _).read, fun source hs => ?_⟩
    obtain ⟨p, hp, hs⟩ := List.mem_flatMap.mp hs
    exact ((h p hp).isHole source hs).nonempty

/-- The brace of a script block doubles the brace of its hole, so that both are text. -/
theorem doubled_brace_hides_hole :
    readInterpolated (render {} (.expr (.template "$({a})"))).toList =
        some (['{', 'a', '}'].map .char, []) ∧
      readInterpolated (render {} (.expr (.template "$({a})"))).toList ≠
        some ((Template.parts "$({a})").flatMap meant, []) := by
  have href : Template.reference ['(', '{', 'a', '}', ')'] = some (.expr "{a}", []) := by decide
  have hparts : Template.parts "$({a})" = [.expr "{a}"] := by
    have hscan : Template.parts "$({a})" = .expr "{a}" :: Template.scan [] [] :=
      Template.scan_reference href
    rw [hscan, Template.scan]
    rfl
  have hread : readInterpolated (render {} (.expr (.template "$({a})"))).toList =
      some (['{', 'a', '}'].map .char, []) := by
    rw [render_template]
    simp [interpolated, hparts, part, hole, readInterpolated, readPieces, piece?]
  refine ⟨hread, ?_⟩
  rw [hread, hparts]
  simp [meant]

end Interlingua.CSharp
