import Interlingua.Proofs.Strings.ReadBack
import Interlingua.Proofs.Template.Expandable

namespace Interlingua

namespace PowerShell

/-- The characters that open and close a literal as a single quote does. -/
def isSingleQuote (c : Char) : Bool := c == '\'' || ('\u2018' ≤ c && c ≤ '\u201b')

def isDoubleQuote (c : Char) : Bool := c == '\"' || ('\u201c' ≤ c && c ≤ '\u201e')

/-- The characters of a text but those of its escapes, which begin with a backtick. -/
def unescaped : List Char → List Char
  | [] => []
  | '\x60' :: _ :: cs => unescaped cs
  | c :: cs => c :: unescaped cs

variable {isQuote : Char → Bool}

theorem length_of_readDoubled {cs value rest : List Char}
    (h : readDoubled isQuote cs = some (value, rest)) :
    cs.length = value.length + value.countP isQuote + 1 + rest.length := by
  fun_induction readDoubled isQuote cs generalizing value with
  | case1 => cases h
  | case2 c hc => cases h; rfl
  | case3 c hc => cases h
  | case4 c d cs hc hd ih =>
    obtain ⟨⟨found, tail⟩, hr, he⟩ := Option.map_eq_some_iff.mp h
    cases he
    have hlength := ih hr
    simp only [List.length_cons, List.countP_cons, hd, if_true] at hlength ⊢
    omega
  | case5 c d cs hc hd => cases h; simp; omega
  | case6 c d cs hc ih =>
    obtain ⟨⟨found, tail⟩, hr, he⟩ := Option.map_eq_some_iff.mp h
    cases he
    have hlength := ih hr
    simp only [List.length_cons, List.countP_cons, hc, Bool.false_eq_true, if_false] at hlength ⊢
    omega

theorem length_stringLiteral (value : String) :
    (stringLiteral value).length = value.toList.length + value.toList.count '\'' + 2 := by
  have hdoubled (cs : List Char) :
      (cs.flatMap fun c => if c = '\'' then ['\'', '\''] else [c]).length =
        cs.length + cs.count '\'' := by
    induction cs with
    | nil => rfl
    | cons c cs ih =>
      rw [List.flatMap_cons, List.length_append, ih, List.length_cons, List.count_cons]
      by_cases hc : c = '\'' <;> simp [hc] <;> omega
  simp [stringLiteral, hdoubled]

theorem eq_quote_of_countP_le (hq : isQuote '\'' = true) {cs : List Char}
    (h : cs.countP isQuote ≤ cs.count '\'') : ∀ c ∈ cs, isQuote c = true → c = '\'' := by
  induction cs with
  | nil => simp
  | cons c cs ih =>
    have htail : cs.count '\'' ≤ cs.countP isQuote :=
      List.countP_mono_left fun d _ hd => by rwa [eq_of_beq hd]
    rw [List.countP_cons, List.count_cons] at h
    refine List.forall_mem_cons.mpr ⟨fun hc => ?_, ih (by grind)⟩
    by_contra hne
    simp [hc, hne] at h
    omega

/-- A literal is read as its value, up to its end, if and only if the quotes that are written twice
are all the quotes there are in the value. -/
theorem readVerbatim_stringLiteral_iff (hq : isQuote '\'' = true) (value : String) :
    readVerbatim isQuote (stringLiteral value) = some (value.toList, []) ↔
      ∀ c ∈ value.toList, isQuote c = true → c = '\'' := by
  refine ⟨fun h => eq_quote_of_countP_le hq ?_, readVerbatim_stringLiteral hq⟩
  have hlength := length_stringLiteral value
  rw [stringLiteral, List.cons_append] at h hlength
  rw [readVerbatim, if_pos hq] at h
  have hread := length_of_readDoubled h
  simp only [List.length_cons, List.length_nil] at hlength hread
  omega

theorem mem_unescaped (c : Char) (text : List Char) :
    c ∈ unescaped (text.flatMap escape) ↔ c ∈ text ∧ escape c = [c] := by
  induction text with
  | nil => simp [unescaped]
  | cons d text ih =>
    rw [List.flatMap_cons, List.mem_cons]
    obtain ⟨e, he, -⟩ | ⟨he, hb, -, -⟩ := escape_cases d
    · rw [he]
      change c ∈ unescaped (text.flatMap escape) ↔ _
      rw [ih]
      refine ⟨fun h => ⟨.inr h.1, h.2⟩, fun ⟨hmem, hc⟩ => ⟨hmem.resolve_left ?_, hc⟩⟩
      rintro rfl
      simp [he] at hc
    · have hcons : unescaped (d :: text.flatMap escape) = d :: unescaped (text.flatMap escape) := by
        rw [unescaped]
        simp [hb]
      rw [he, List.singleton_append, hcons, List.mem_cons, ih]
      constructor
      · rintro (rfl | ⟨hmem, hc⟩)
        · exact ⟨.inl rfl, he⟩
        · exact ⟨.inr hmem, hc⟩
      · rintro ⟨rfl | hmem, hc⟩
        · exact .inl rfl
        · exact .inr ⟨hmem, hc⟩

theorem escape_eq_iff_of_isDoubleQuote {c : Char} (h : isDoubleQuote c = true) :
    escape c = [c] ↔ c ≠ '\"' := by
  unfold escape
  split
  case h_8 => simp_all
  all_goals simp_all [isDoubleQuote]

theorem render_template (layout : Layout) (template : String) :
    (render layout (.expr (.template template))).toList = expandable template :=
  toList_layOut_write layout _

end PowerShell

namespace CSharp

/-- The characters that end a line, which no string literal holds. -/
def isNewLine (c : Char) : Bool := c ∈ ['\n', '\r', '\x85', '\u2028', '\u2029']

theorem not_isNewLine_stringLiteral_iff (value : String) :
    (∀ c ∈ stringLiteral value, ¬ isNewLine c) ↔
      ∀ c ∈ value.toList, isNewLine c → c = '\n' ∨ c = '\r' := by
  have hmarks : ∀ c ∈ escapeMarks, ¬ isNewLine c := by simp [escapeMarks, isNewLine]
  have hdenoted : ∀ d ∈ escapeMarks, ∀ c ∈ denoted? d, isNewLine c → c = '\n' ∨ c = '\r' := by
    simp [escapeMarks, denoted?, isNewLine]
  constructor
  · intro h c hc hnew
    obtain ⟨d, hmem, -, hd⟩ | ⟨he, -⟩ := escape_denoted c
    · exact hdenoted d hmem c hd hnew
    · have hmem : c ∈ value.toList.flatMap escape :=
        List.mem_flatMap.mpr ⟨c, hc, he ▸ List.mem_cons_self⟩
      exact absurd hnew (h c (by simp [stringLiteral, hmem]))
  · intro h c hc hnew
    obtain hmem | ⟨hmem, hn, hr, -⟩ := mem_stringLiteral hc
    · exact hmarks c hmem hnew
    · exact (h c hmem hnew).elim hn hr

end CSharp

/-- A string is the value of its PowerShell literal, up to the end of that, if and only if it has no
single quotes but those of ASCII; no double quote is left unescaped in the text of a template if and
only if its text has none but those of ASCII; and a C# literal is one line if and only if no line
end of the string is but a line feed or a carriage return. -/
theorem Expr.text_contained_iff (layout : Layout) (v : String) :
    (PowerShell.readVerbatim PowerShell.isSingleQuote
          (PowerShell.render layout (.expr (.string v))).toList = some (v.toList, []) ↔
        ∀ c ∈ v.toList, PowerShell.isSingleQuote c → c = '\'') ∧
      ((PowerShell.render layout (.expr (.template v))).toList =
          '\"' :: (Template.parts v).flatMap PowerShell.part ++ ['\"'] ∧
        ((∀ t, .text t ∈ Template.parts v →
            ∀ c ∈ PowerShell.unescaped (PowerShell.part (.text t)), ¬ PowerShell.isDoubleQuote c) ↔
          ∀ t, .text t ∈ Template.parts v →
            ∀ c ∈ t.toList, PowerShell.isDoubleQuote c → c = '\"')) ∧
      ((∀ c ∈ (CSharp.render layout (.expr (.string v))).toList, ¬ CSharp.isNewLine c) ↔
        ∀ c ∈ v.toList, CSharp.isNewLine c → c = '\n' ∨ c = '\r') := by
  rw [PowerShell.render_string, PowerShell.render_template, CSharp.render_string]
  refine ⟨PowerShell.readVerbatim_stringLiteral_iff rfl v, ⟨rfl, ?_⟩,
    CSharp.not_isNewLine_stringLiteral_iff v⟩
  refine forall₂_congr fun t _ => forall_congr' fun c => ?_
  rw [PowerShell.part, PowerShell.mem_unescaped]
  constructor
  · intro h hc hquote
    by_contra hne
    exact h ⟨hc, (PowerShell.escape_eq_iff_of_isDoubleQuote hquote).mpr hne⟩ hquote
  · rintro h ⟨hc, he⟩ hquote
    exact (PowerShell.escape_eq_iff_of_isDoubleQuote hquote).mp he (h hc hquote)

/-- An apostrophe that is no ASCII quote ends the literal in which it stands. -/
theorem PowerShell.apostrophe_ends_literal :
    readVerbatim isSingleQuote (render {} (.expr (.string "it\u2019s"))).toList =
        some (['i', 't'], ['s', '\'']) ∧
      readVerbatim isSingleQuote (render {} (.expr (.string "it\u2019s"))).toList ≠
        some ("it\u2019s".toList, []) := by
  rw [render_string]
  decide

end Interlingua
