import Interlingua.Proofs.Page.Marks
import Interlingua.Proofs.Template.Parts
import Interlingua.Render.CSharp
import Interlingua.Render.PowerShell

namespace Interlingua

theorem Text.toNat_lt_of_toLower {c : Char} (h : c.toLower.toNat < 0x80) : c.toNat < 0x80 := by
  unfold Char.toLower at h
  split at h
  · next hc =>
    have hle : c.toNat ≤ 90 := hc.2
    omega
  · exact h

theorem Text.ascii_of_sameName {a b : String} (h : sameName a b = true)
    (ha : (fold a).all (·.toNat < 0x80) = true) : ∀ c ∈ b.toList, c.toNat < 0x80 := by
  intro c hc
  rw [sameName_iff] at h
  have hmem : c.toLower ∈ fold a := h ▸ List.mem_map_of_mem hc
  exact toNat_lt_of_toLower (of_decide_eq_true (List.all_eq_true.mp ha _ hmem))

variable {p : Char → Bool}

namespace BeyondAscii

variable (hp : BeyondAscii p)
include hp

theorem filter_cons {c : Char} (hc : c.toNat < 0x80) (cs : List Char) :
    (c :: cs).filter p = cs.filter p := by
  rw [List.filter_cons_of_neg]
  rw [hp c hc]
  exact Bool.false_ne_true

theorem filter_escape (c : Char) : (CSharp.escape c).filter p = [c].filter p := by
  unfold CSharp.escape
  split
  case h_6 => rfl
  all_goals simp (disch := decide) only [hp.filter_cons]

theorem filter_escapeInterpolated (c : Char) :
    (CSharp.escapeInterpolated c).filter p = [c].filter p := by
  unfold CSharp.escapeInterpolated
  split
  case h_4 => exact hp.filter_escape c
  all_goals simp (disch := decide) only [hp.filter_cons]

theorem filter_powerShellEscape (c : Char) : (PowerShell.escape c).filter p = [c].filter p := by
  unfold PowerShell.escape
  split
  case h_8 => rfl
  all_goals simp (disch := decide) only [hp.filter_cons]

omit hp in
theorem filter_flatMap {f : Char → List Char} (h : ∀ c, (f c).filter p = [c].filter p)
    (cs : List Char) : (cs.flatMap f).filter p = cs.filter p := by
  induction cs with
  | nil => rfl
  | cons c cs ih => rw [List.flatMap_cons, List.filter_append, h, ih, ← List.filter_append]; rfl

omit hp in
theorem filter_parts {f : Template.Part → List Char}
    (h : ∀ part, (f part).filter p = part.spelling.filter p) (template : String) :
    ((Template.parts template).flatMap f).filter p = template.toList.filter p := by
  have hspelled := ((Template.divides_iff _ template).mpr rfl).spelled
  rw [← hspelled]
  induction Template.parts template with
  | nil => rfl
  | cons part parts ih =>
    rw [List.flatMap_cons, Template.spellAll_cons, List.filter_append, List.filter_append, h, ih]

theorem filter_spelling_ref (scope : Option String) (name : String) (braced : Bool) :
    (Template.Part.ref scope name braced).spelling.filter p =
      (Template.fullName scope name).filter p := by
  cases braced <;>
    simp (disch := decide) only [Template.Part.spelling, List.filter_append, hp.filter_cons,
      List.filter_nil, List.append_nil]

theorem filter_spelling_expr (source : String) :
    (Template.Part.expr source).spelling.filter p = source.toList.filter p := by
  simp (disch := decide) only [Template.Part.spelling, List.filter_append, hp.filter_cons,
    List.filter_nil, List.append_nil]

theorem filter_fullName (scope name : String) :
    (Template.fullName (some scope) name).filter p =
      scope.toList.filter p ++ name.toList.filter p := by
  simp (disch := decide) only [Template.fullName, List.filter_append, hp.filter_cons]

end BeyondAscii

namespace CSharp

variable (hp : BeyondAscii p)
include hp

theorem filter_stringLiteral (value : String) :
    (stringLiteral value).filter p = value.toList.filter p := by
  simp (disch := decide) only [stringLiteral, List.cons_append, List.filter_append, hp.filter_cons,
    List.filter_nil, List.append_nil, BeyondAscii.filter_flatMap hp.filter_escape]

theorem filter_hole (source : List Char) : (hole source).filter p = source.filter p := by
  simp (disch := decide) only [hole, List.cons_append, List.filter_append, hp.filter_cons,
    List.filter_nil, List.append_nil]

theorem filter_variableHole (scope : Option String) (name : String) :
    (variableHole scope name).filter p = (Template.fullName scope name).filter p := by
  have hascii {plain scope : String} (h : Text.sameName plain scope)
      (hplain : (Text.fold plain).all (·.toNat < 0x80)) :
      (Template.fullName (some scope) name).filter p = name.toList.filter p := by
    have hscope := hp.filter_eq_nil (Text.ascii_of_sameName h hplain)
    rw [hp.filter_fullName, hscope, List.nil_append]
  cases scope with
  | none => exact filter_hole hp name.toList
  | some scope =>
    rw [variableHole]
    split
    · next h =>
      obtain ⟨plain, hmem, hsame⟩ := List.any_eq_true.mp h
      have hplain : ∀ plain ∈ plainScopes, (Text.fold plain).all (·.toNat < 0x80) := by decide
      rw [filter_hole hp, hascii hsame (hplain plain hmem)]
    · split
      · next h =>
        have hcall : "Environment.GetEnvironmentVariable(\"".toList.filter p = [] :=
          hp.filter_ascii (by decide)
        have hclose : "\")".toList.filter p = [] := hp.filter_ascii (by decide)
        rw [filter_hole hp, hascii h (by decide), List.filter_append, List.filter_append, hcall,
          hclose, List.nil_append, List.append_nil]
      · rw [BeyondAscii.filter_flatMap hp.filter_escapeInterpolated, List.cons_append,
          hp.filter_cons (by decide)]
        rfl

theorem filter_part (part : Template.Part) :
    (CSharp.part part).filter p = part.spelling.filter p := by
  cases part with
  | text text => exact BeyondAscii.filter_flatMap hp.filter_escapeInterpolated text.toList
  | ref scope name braced =>
    rw [hp.filter_spelling_ref]
    exact filter_variableHole hp scope name
  | expr source =>
    have hdollar : p '$' = false := hp '$' (by decide)
    rw [hp.filter_spelling_expr, CSharp.part, filter_hole hp, List.filter_filter]
    refine List.filter_congr fun c _ => ?_
    by_cases hc : c = '$'
    · subst hc
      simp [hdollar]
    · simp [hc]

theorem filter_interpolated (template : String) :
    (interpolated template).filter p = template.toList.filter p := by
  simp (disch := decide) only [interpolated, List.cons_append, List.filter_append, hp.filter_cons,
    List.filter_nil, List.append_nil, BeyondAscii.filter_parts (filter_part hp)]

end CSharp

namespace PowerShell

variable (hp : BeyondAscii p)
include hp

theorem filter_stringLiteral (value : String) :
    (stringLiteral value).filter p = value.toList.filter p := by
  have hquote (c : Char) : (if c = '\'' then ['\'', '\''] else [c]).filter p = [c].filter p := by
    split
    · next hc => simp (disch := decide) only [hc, hp.filter_cons]
    · rfl
  simp (disch := decide) only [stringLiteral, List.cons_append, List.filter_append, hp.filter_cons,
    List.filter_nil, List.append_nil, BeyondAscii.filter_flatMap hquote]

theorem filter_part (part : Template.Part) :
    (PowerShell.part part).filter p = part.spelling.filter p := by
  cases part with
  | text text => exact BeyondAscii.filter_flatMap hp.filter_powerShellEscape text.toList
  | ref scope name braced =>
    rw [hp.filter_spelling_ref]
    cases scope <;> cases braced <;>
      simp (disch := decide) only [PowerShell.part, reference, Template.fullName,
        List.filter_append, hp.filter_cons, List.filter_nil, List.append_nil, List.nil_append,
        if_true, if_false, Bool.false_eq_true]
  | expr source =>
    simp (disch := decide) only [PowerShell.part, Template.Part.spelling, List.cons_append,
      List.filter_append, hp.filter_cons, List.filter_nil, List.append_nil]

theorem filter_expandable (template : String) :
    (expandable template).filter p = template.toList.filter p := by
  simp (disch := decide) only [expandable, List.cons_append, List.filter_append, hp.filter_cons,
    List.filter_nil, List.append_nil, BeyondAscii.filter_parts (filter_part hp)]

end PowerShell

end Interlingua
