import Mathlib.Data.List.Basic
import Interlingua.Proofs.Template.Interpolated
import Interlingua.Render.PowerShell

namespace Interlingua

namespace CSharp

open Template (Piece readPieces Passes IsLiteral)

def denoted? : Char → Option Char
  | '\\' => some '\\'
  | '\"' => some '\"'
  | 'n' => some '\n'
  | 'r' => some '\r'
  | 't' => some '\t'
  | _ => none

def escapeMarks : List Char := ['\\', '\"', 'n', 'r', 't']

/-- The character at the front of the text. Nothing is embedded in a string literal. -/
def character? : List Char → Option (Piece Empty × List Char)
  | [] => none
  | ['\\'] => none
  | '\\' :: c :: cs => (denoted? c).map fun d => (.char d, cs)
  | c :: cs => some (.char c, cs)

def charOf : Piece Empty → Char
  | .char c => c

/-- The value of a string literal, and what follows the first quote that is not escaped. -/
def readString : List Char → Option (List Char × List Char)
  | '\"' :: cs => (readPieces character? cs).map fun r => (r.1.map charOf, r.2)
  | _ => none

theorem character?_plain {c : Char} (hc : c ≠ '\\') (cs : List Char) :
    character? (c :: cs) = some (.char c, cs) := by
  unfold character?
  split <;> simp_all

theorem escape_denoted (c : Char) :
    (∃ d ∈ escapeMarks, escape c = ['\\', d] ∧ denoted? d = some c) ∨
      escape c = [c] ∧ c ≠ '\\' ∧ c ≠ '\"' ∧ c ≠ '\n' ∧ c ≠ '\r' ∧ c ≠ '\t' := by
  unfold escape
  split
  case h_6 => simp_all
  all_goals exact .inl ⟨_, by decide, rfl, rfl⟩

theorem mem_stringLiteral {value : String} {c : Char} (h : c ∈ stringLiteral value) :
    c ∈ escapeMarks ∨
      c ∈ value.toList ∧ c ≠ '\n' ∧ c ≠ '\r' ∧ c ≠ '\t' := by
  obtain rfl | hc | rfl : c = '\"' ∨ c ∈ value.toList.flatMap escape ∨ c = '\"' := by
    simpa [stringLiteral, or_assoc] using h
  · exact .inl (by decide)
  · obtain ⟨d, hd, hc⟩ := List.mem_flatMap.mp hc
    obtain ⟨e, hmem, he, -⟩ | ⟨he, -, -, hne⟩ := escape_denoted d
    · obtain rfl | rfl : c = '\\' ∨ c = e := by simpa [he] using hc
      · exact .inl (by decide)
      · exact .inl hmem
    · obtain rfl : c = d := by simpa [he] using hc
      exact .inr ⟨hd, hne⟩
  · exact .inl (by decide)

theorem passes_escape (c : Char) (rest : List Char) :
    Passes character? (escape c) [.char c] rest := by
  obtain ⟨d, -, he, hd⟩ | ⟨he, hb, hq, -⟩ := escape_denoted c
  · rw [he]
    refine .single ?_ (by simp) (by simp)
    change (denoted? d).map _ = _
    rw [hd]
    rfl
  · rw [he]
    exact .single (character?_plain hb rest) (by simp) (by simpa using hq)

theorem readString_stringLiteral (value : String) (rest : List Char) :
    readString (stringLiteral value ++ rest) = some (value.toList, rest) := by
  have htext : stringLiteral value ++ rest =
      '\"' :: (value.toList.flatMap escape ++ '\"' :: rest) := by simp [stringLiteral]
  have hread := (Passes.chars passes_escape value.toList ('\"' :: rest)).read
  rw [htext, readString, hread, Option.map_some, List.map_map]
  simp [Function.comp_def, charOf]

theorem one_line_stringLiteral (value : String) :
    ∀ c ∈ stringLiteral value, c ≠ '\n' ∧ c ≠ '\r' ∧ c ≠ '\t' := by
  have hmarks : ∀ c ∈ escapeMarks, c ≠ '\n' ∧ c ≠ '\r' ∧ c ≠ '\t' := by simp [escapeMarks]
  intro c hc
  obtain hmem | ⟨-, hne⟩ := mem_stringLiteral hc
  · exact hmarks c hmem
  · exact hne

def replaced (c : Char) (text : List Char) (cs : List Char) : List Char :=
  cs.flatMap fun d => if d = c then text else [d]

/-- Escapes are put in by replacing one character after the other. The backslash comes first, so
that no escape is escaped. -/
theorem flatMap_escape_eq_replaced (cs : List Char) :
    cs.flatMap escape =
      replaced '\t' ['\\', 't'] (replaced '\r' ['\\', 'r'] (replaced '\n' ['\\', 'n']
        (replaced '\"' ['\\', '\"'] (replaced '\\' ['\\', '\\'] cs)))) := by
  simp only [replaced, List.flatMap_assoc]
  refine List.flatMap_congr fun c _ => ?_
  unfold escape
  split
  case h_6 => simp_all
  all_goals decide

theorem render_string (layout : Layout) (value : String) :
    (render layout (.expr (.string value))).toList = stringLiteral value :=
  toList_layOut_write layout _

theorem escapeInterpolated_eq {c : Char} (ho : c ≠ '{') (hc : c ≠ '}') (hn : c ≠ '\x00') :
    escapeInterpolated c = escape c := by
  unfold escapeInterpolated
  split <;> simp_all

theorem flatMap_part_of_not_mem {template : String} (h : '$' ∉ template.toList) :
    (Template.parts template).flatMap part = template.toList.flatMap escapeInterpolated := by
  have hliteral : IsLiteral template.toList [] := by
    intro before after ht
    exact absurd (ht ▸ List.mem_append_right before List.mem_cons_self) h
  have hparts : Template.parts template = Template.withText template.toList.reverse [] := by
    have hscan : Template.scan [] (template.toList ++ []) =
        Template.scan (template.toList.reverse ++ []) [] := Template.scan_append hliteral
    rw [List.append_nil, List.append_nil] at hscan
    rw [Template.parts, hscan, Template.scan]
  rw [hparts]
  cases ht : template.toList with
  | nil => rfl
  | cons c cs =>
    rw [Template.withText_of_ne_nil (by simp), List.reverse_reverse]
    simp [part]

end CSharp

namespace PowerShell

/-- The value in front of the quote that closes the literal, and what follows that quote. Two
quotes in a row are one that is meant. -/
def readDoubled (isQuote : Char → Bool) : List Char → Option (List Char × List Char)
  | [] => none
  | [c] => if isQuote c then some ([], []) else none
  | c :: d :: cs =>
    if isQuote c then
      if isQuote d then (readDoubled isQuote cs).map fun r => (d :: r.1, r.2)
      else some ([], d :: cs)
    else (readDoubled isQuote (d :: cs)).map fun r => (c :: r.1, r.2)

/-- The value of a literal in quotes, and what follows it. -/
def readVerbatim (isQuote : Char → Bool) : List Char → Option (List Char × List Char)
  | [] => none
  | c :: cs => if isQuote c then readDoubled isQuote cs else none

variable {isQuote : Char → Bool}

theorem readDoubled_pair (cs : List Char) {c d : Char} (hc : isQuote c = true)
    (hd : isQuote d = true) :
    readDoubled isQuote (c :: d :: cs) =
      (readDoubled isQuote cs).map fun r => (d :: r.1, r.2) := by
  rw [readDoubled, if_pos hc, if_pos hd]

theorem readDoubled_plain {cs : List Char} {c : Char} (hc : isQuote c = false) (hne : cs ≠ []) :
    readDoubled isQuote (c :: cs) =
      (readDoubled isQuote cs).map fun r => (c :: r.1, r.2) := by
  cases cs with
  | nil => exact absurd rfl hne
  | cons d cs => rw [readDoubled, if_neg (by simp [hc])]

theorem readVerbatim_stringLiteral (hq : isQuote '\'' = true) {value : String}
    (h : ∀ c ∈ value.toList, isQuote c = true → c = '\'') :
    readVerbatim isQuote (stringLiteral value) = some (value.toList, []) := by
  rw [stringLiteral, List.cons_append, readVerbatim, if_pos hq]
  generalize value.toList = cs at h
  induction cs with
  | nil => exact if_pos hq
  | cons c cs ih =>
    obtain ⟨hc, hcs⟩ := List.forall_mem_cons.mp h
    rw [List.flatMap_cons, List.append_assoc]
    cases hquote : isQuote c with
    | true =>
      obtain rfl := hc hquote
      rw [if_pos rfl, List.cons_append, List.cons_append, readDoubled_pair _ hq hq,
        List.nil_append, ih hcs]
      rfl
    | false =>
      have hne : c ≠ '\'' := by
        rintro rfl
        exact Bool.false_ne_true (hquote.symm.trans hq)
      rw [if_neg hne, List.singleton_append, readDoubled_plain hquote (by simp), ih hcs]
      rfl

theorem render_string (layout : Layout) (value : String) :
    (render layout (.expr (.string value))).toList = stringLiteral value :=
  toList_layOut_write layout _

end PowerShell

/-- A string is read back from its C# literal, on whatever follows, and the literal is one line
without tabs. It is read back from its PowerShell literal, which ends where its text ends. A
template of no other characters than those that a string literal holds or escapes is written as
the string is, behind a `$`. -/
theorem Expr.string_read_back (layout : Layout) (v : String) :
    ((∀ rest, CSharp.readString ((CSharp.render layout (.expr (.string v))).toList ++ rest) =
          some (v.toList, rest)) ∧
        ∀ c ∈ (CSharp.render layout (.expr (.string v))).toList,
          c ≠ '\n' ∧ c ≠ '\r' ∧ c ≠ '\t') ∧
      PowerShell.readVerbatim (· == '\'')
          (PowerShell.render layout (.expr (.string v))).toList = some (v.toList, []) ∧
      ((∀ c ∈ v.toList, c ≠ '$' ∧ c ≠ '{' ∧ c ≠ '}' ∧ c ≠ '\x00') →
        (CSharp.render layout (.expr (.template v))).toList =
          '$' :: (CSharp.render layout (.expr (.string v))).toList) := by
  rw [CSharp.render_string, PowerShell.render_string, CSharp.render_template]
  refine ⟨⟨CSharp.readString_stringLiteral v, CSharp.one_line_stringLiteral v⟩, ?_, fun h => ?_⟩
  · exact PowerShell.readVerbatim_stringLiteral rfl fun c _ hc => eq_of_beq hc
  · have hdollar : '$' ∉ v.toList := fun hmem => (h '$' hmem).1 rfl
    have hescape : v.toList.flatMap CSharp.escapeInterpolated = v.toList.flatMap CSharp.escape :=
      List.flatMap_congr fun c hc =>
        have ⟨_, ho, hb, hn⟩ := h c hc
        CSharp.escapeInterpolated_eq ho hb hn
    rw [CSharp.interpolated, CSharp.flatMap_part_of_not_mem hdollar, hescape]
    rfl

theorem Expr.backslash_quotes_read_back :
    let v := "\n\\\"\\\\''\""
    (∀ c ∈ v.toList, c ≠ '$' ∧ c ≠ '{' ∧ c ≠ '}' ∧ c ≠ '\x00') ∧
      CSharp.readString (CSharp.render {} (.expr (.string v))).toList = some (v.toList, []) ∧
      PowerShell.readVerbatim (· == '\'')
        (PowerShell.render {} (.expr (.string v))).toList = some (v.toList, []) ∧
      (CSharp.render {} (.expr (.template v))).toList =
        '$' :: (CSharp.render {} (.expr (.string v))).toList := by
  intro v
  have hv : ∀ c ∈ v.toList, c ≠ '$' ∧ c ≠ '{' ∧ c ≠ '}' ∧ c ≠ '\x00' := by simp [v]
  obtain ⟨⟨hread, -⟩, hverbatim, htemplate⟩ := Expr.string_read_back {} v
  have hend := hread []
  rw [List.append_nil] at hend
  exact ⟨hv, hend, hverbatim, htemplate hv⟩

end Interlingua
