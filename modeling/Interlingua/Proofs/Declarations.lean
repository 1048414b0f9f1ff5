import Mathlib.Data.List.Induction
import Interlingua.Host.Conversion

namespace Interlingua

/-- The declarations that no later one of the same name follows. -/
def lastDeclared : List Parameter → List Parameter
  | [] => []
  | p :: ps =>
    if ps.any (Text.sameName p.name ·.name) then lastDeclared ps else p :: lastDeclared ps

def DistinctNames (ps : List Parameter) : Prop :=
  ps.Pairwise fun p q => ¬ Text.sameName p.name q.name

theorem lastDeclared_sublist (ps : List Parameter) : (lastDeclared ps).Sublist ps := by
  fun_induction lastDeclared ps with
  | case1 => exact .slnil
  | case2 p ps _ ih => exact ih.cons p
  | case3 p ps _ ih => exact ih.cons_cons p

theorem distinctNames_lastDeclared (ps : List Parameter) : DistinctNames (lastDeclared ps) := by
  fun_induction lastDeclared ps with
  | case1 => exact .nil
  | case2 p ps _ ih => exact ih
  | case3 p ps h ih =>
    have hlast : ∀ q ∈ ps, ¬ Text.sameName p.name q.name := by simpa using h
    exact .cons (fun q hq => hlast q ((lastDeclared_sublist ps).subset hq)) ih

theorem exists_mem_lastDeclared {ps : List Parameter} {p : Parameter} (h : p ∈ ps) :
    ∃ q ∈ lastDeclared ps, Text.sameName p.name q.name := by
  fun_induction lastDeclared ps generalizing p with
  | case1 => cases h
  | case2 q ps hlater ih =>
    obtain rfl | h := List.mem_cons.mp h
    · obtain ⟨r, hr, hpr⟩ := List.any_eq_true.mp hlater
      obtain ⟨s, hs, hrs⟩ := ih hr
      rw [Text.sameName_iff] at hpr hrs
      exact ⟨s, hs, Text.sameName_iff.mpr (hpr.trans hrs)⟩
    · exact ih h
  | case3 q ps _ ih =>
    obtain rfl | h := List.mem_cons.mp h
    · exact ⟨p, List.mem_cons_self, Text.sameName_iff.mpr rfl⟩
    · obtain ⟨r, hr, hname⟩ := ih h
      exact ⟨r, List.mem_cons_of_mem q hr, hname⟩

theorem last_of_mem_lastDeclared {ps : List Parameter} {p : Parameter} (h : p ∈ lastDeclared ps) :
    ∃ before after, ps = before ++ p :: after ∧
      ∀ q ∈ after, ¬ Text.sameName p.name q.name := by
  fun_induction lastDeclared ps with
  | case1 => cases h
  | case2 q ps _ ih =>
    obtain ⟨before, after, rfl, hlast⟩ := ih h
    exact ⟨q :: before, after, rfl, hlast⟩
  | case3 q ps hq ih =>
    obtain rfl | h := List.mem_cons.mp h
    · exact ⟨[], ps, rfl, by simpa using hq⟩
    · obtain ⟨before, after, rfl, hlast⟩ := ih h
      exact ⟨q :: before, after, rfl, hlast⟩

theorem lastDeclared_concat (ps : List Parameter) (p : Parameter) :
    lastDeclared (ps ++ [p]) =
      (lastDeclared ps).filter (! Text.sameName ·.name p.name) ++ [p] := by
  induction ps with
  | nil => simp [lastDeclared]
  | cons q ps ih =>
    simp only [List.cons_append, lastDeclared, List.any_append, List.any_cons, List.any_nil,
      Bool.or_false, ih]
    cases hlater : ps.any (Text.sameName q.name ·.name) <;>
      cases hq : Text.sameName q.name p.name <;> simp [hq]

namespace Host

theorem redeclare_eq_filter {kept : List Parameter} (h : DistinctNames kept) (p : Parameter) :
    redeclare kept p = kept.filter (! Text.sameName ·.name p.name) ++ [p] := by
  unfold redeclare
  congr 1
  induction h with
  | nil => rfl
  | @cons q qs hq _ ih =>
    by_cases hname : Text.sameName q.name p.name
    · have hrest : qs.filter (! Text.sameName ·.name p.name) = qs := by
        refine List.filter_eq_self.mpr fun r hr => ?_
        have hr := hq r hr
        rw [Text.sameName_iff] at hname hr
        rw [Bool.not_eq_true', ← Bool.not_eq_true, Text.sameName_iff]
        exact fun hrp => hr (hname.trans hrp.symm)
      simp [hname, hrest]
    · simp [hname, ih]

theorem foldl_redeclare (ps : List Parameter) : ps.foldl redeclare [] = lastDeclared ps := by
  induction ps using List.reverseRecOn with
  | nil => rfl
  | append_singleton ps p ih =>
    rw [List.foldl_append, ih, lastDeclared_concat]
    exact redeclare_eq_filter (distinctNames_lastDeclared ps) p

example : [⟨some "int", "Path"⟩, ⟨none, "b"⟩, ⟨none, "path"⟩].foldl redeclare [] =
    [⟨none, "b"⟩, ⟨none, "path"⟩] := by decide

end Host

end Interlingua
