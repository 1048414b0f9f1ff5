import Interlingua.Proofs.Page.Inline
import Interlingua.Proofs.Page.Printers

namespace Interlingua

/-- The operators in front of the expression, the outermost first. -/
def Expr.prefixed (ops : List UnaryOperator) (e : Expr) : Expr := ops.foldr .before e

namespace UnaryOperator

/-- The operator as it is read sign by sign. -/
def signs : UnaryOperator → List UnaryOperator
  | increment => [plus, plus]
  | decrement => [negate, negate]
  | op => [op]

/-- Whether an operator is a sign and the one behind it begins with a like sign. -/
def fuses : UnaryOperator → UnaryOperator → Bool
  | plus, plus | plus, increment | negate, negate | negate, decrement => true
  | _, _ => false

/-- A chain in which no sign stands in front of a like sign. -/
def Unfused (ops : List UnaryOperator) : Prop := ops.IsChain fun a b => ¬ a.fuses b

instance (ops : List UnaryOperator) : Decidable (Unfused ops) :=
  inferInstanceAs (Decidable (ops.IsChain _))

variable {a b : UnaryOperator} {ops others : List UnaryOperator}

theorem signs_of_mem_signs (h : a ∈ b.signs) : a.signs = [a] := by
  cases b <;> cases a <;> simp_all [signs]

theorem signs_of_mem_flatMap (h : a ∈ ops.flatMap signs) : a.signs = [a] := by
  obtain ⟨op, -, ha⟩ := List.mem_flatMap.mp h
  exact signs_of_mem_signs ha

theorem signs_append_eq {us vs : List UnaryOperator} (h : a.signs ++ us = b.signs ++ vs)
    (hne : a ≠ b) :
    (a = plus ∨ a = negate) ∧ us = a :: vs ∨ (b = plus ∨ b = negate) ∧ vs = b :: us := by
  cases a <;> cases b <;> simp_all [signs]

/-- A sign in front of a like sign fuses with it, whatever operator that belongs to. -/
theorem not_unfused_cons (ha : a = plus ∨ a = negate) {rest : List UnaryOperator}
    (h : ops.flatMap signs = a :: rest) : ¬ Unfused (a :: ops) := by
  cases ops with
  | nil => cases h
  | cons b ops =>
    intro hunfused
    have hb : ¬ a.fuses b := (List.isChain_cons_cons.mp hunfused).1
    obtain rfl | rfl := ha <;> cases b <;> simp_all [signs, fuses]

theorem eq_of_flatMap_signs (hops : Unfused ops) (hothers : Unfused others)
    (h : ops.flatMap signs = others.flatMap signs) : ops = others := by
  induction ops generalizing others with
  | nil =>
    cases others with
    | nil => rfl
    | cons b others => cases b <;> cases h
  | cons a ops ih =>
    cases others with
    | nil => cases a <;> cases h
    | cons b others =>
      rw [List.flatMap_cons, List.flatMap_cons] at h
      by_cases hab : a = b
      · subst hab
        rw [ih hops.of_cons hothers.of_cons (List.append_cancel_left h)]
      · obtain ⟨ha, hrest⟩ | ⟨hb, hrest⟩ := signs_append_eq h hab
        · exact absurd hops (not_unfused_cons ha hrest)
        · exact absurd hothers (not_unfused_cons hb hrest)

def spelled (spelling : UnaryOperator → String) (ops : List UnaryOperator) : List Char :=
  ops.flatMap fun op => (spelling op).toList

theorem lineOf_prefixed {expr : Expr → List Step} {spelling : UnaryOperator → String}
    (hbefore : ∀ op e, expr (.before op e) = .write (spelling op) :: expr e)
    (hline : ∀ e, OneLine (expr e)) (ops : List UnaryOperator) (e : Expr) :
    lineOf (expr (e.prefixed ops)) = spelled spelling ops ++ lineOf (expr e) := by
  induction ops with
  | nil => rfl
  | cons op ops ih =>
    rw [Expr.prefixed, List.foldr_cons, hbefore, lineOf_cons_write _ (hline _), ← Expr.prefixed, ih,
      ← List.append_assoc]
    rfl

/-- A spelling in which operators are written sign by sign, and one sign is told from another
whatever operators follow. -/
structure SpellsSigns (spelling : UnaryOperator → String) : Prop where
  spelled_signs : ∀ op, spelled spelling op.signs = (spelling op).toList
  ne_nil : ∀ op, (spelling op).toList ≠ []
  eq_of_append : ∀ a b us vs, a.signs = [a] → b.signs = [b] →
    (spelling a).toList ++ spelled spelling us = (spelling b).toList ++ spelled spelling vs → a = b

namespace SpellsSigns

variable {spelling : UnaryOperator → String} (h : SpellsSigns spelling)
include h

theorem spelled_flatMap_signs (ops : List UnaryOperator) :
    spelled spelling (ops.flatMap signs) = spelled spelling ops := by
  have hop : (fun op => spelled spelling op.signs) = fun op => (spelling op).toList :=
    funext h.spelled_signs
  rw [spelled, List.flatMap_assoc]
  exact congrArg ops.flatMap hop

theorem eq_of_spelled {us vs : List UnaryOperator} (hus : ∀ a ∈ us, a.signs = [a])
    (hvs : ∀ b ∈ vs, b.signs = [b]) (heq : spelled spelling us = spelled spelling vs) :
    us = vs := by
  induction us generalizing vs with
  | nil =>
    cases vs with
    | nil => rfl
    | cons b vs => exact absurd (List.append_eq_nil_iff.mp heq.symm).1 (h.ne_nil b)
  | cons a us ih =>
    cases vs with
    | nil => exact absurd (List.append_eq_nil_iff.mp heq).1 (h.ne_nil a)
    | cons b vs =>
      obtain ⟨ha, hu⟩ := List.forall_mem_cons.mp hus
      obtain ⟨hb, hv⟩ := List.forall_mem_cons.mp hvs
      obtain rfl := h.eq_of_append a b us vs ha hb heq
      rw [ih hu hv (List.append_cancel_left heq)]

/-- Operators are spelled alike if and only if they are the same signs. -/
theorem spelled_eq_iff (ops others : List UnaryOperator) :
    spelled spelling ops = spelled spelling others ↔ ops.flatMap signs = others.flatMap signs := by
  rw [← h.spelled_flatMap_signs ops, ← h.spelled_flatMap_signs others]
  refine ⟨h.eq_of_spelled ?_ ?_, congrArg _⟩
  · exact fun a ha => signs_of_mem_flatMap ha
  · exact fun b hb => signs_of_mem_flatMap hb

theorem layOut_prefixed_iff {expr : Expr → List Step}
    (hbefore : ∀ op e, expr (.before op e) = .write (spelling op) :: expr e)
    (hline : ∀ e, OneLine (expr e)) (layout : Layout) (e : Expr) (ops others : List UnaryOperator) :
    layOut layout (expr (e.prefixed ops)) = layOut layout (expr (e.prefixed others)) ↔
      ops.flatMap signs = others.flatMap signs := by
  have htext (ops : List UnaryOperator) : (layOut layout (expr (e.prefixed ops))).toList =
      spelled spelling ops ++ lineOf (expr e) := by
    rw [(hline _).inline.toList_layOut, lineOf_prefixed hbefore hline]
  rw [← String.toList_inj, htext, htext, List.append_left_inj, h.spelled_eq_iff]

end SpellsSigns

end UnaryOperator

open UnaryOperator (spelled SpellsSigns)

namespace CSharp

theorem spellsSigns : SpellsSigns unarySpelling where
  spelled_signs op := by cases op <;> rfl
  ne_nil op := by cases op <;> decide
  eq_of_append a b us vs ha hb h := by
    -- The first characters differ.
    cases a <;> cases ha <;> cases b <;> cases hb <;> simp_all [unarySpelling]

theorem render_prefixed_iff (layout : Layout) (e : Expr) (ops others : List UnaryOperator) :
    render layout (.expr (e.prefixed ops)) = render layout (.expr (e.prefixed others)) ↔
      ops.flatMap UnaryOperator.signs = others.flatMap UnaryOperator.signs :=
  spellsSigns.layOut_prefixed_iff (fun _ _ => rfl) oneLine_expr layout e ops others

end CSharp

namespace PowerShell

theorem cons_ne_spelled {c : Char} (hc : c ∉ ['-', '+', '<']) (cs : List Char)
    (ops : List UnaryOperator) : c :: cs ≠ spelled unarySpelling ops := by
  intro h
  cases ops with
  | nil => cases h
  | cons op ops => cases op <;> cases h <;> exact hc (by decide)

theorem spellsSigns : SpellsSigns unarySpelling where
  spelled_signs op := by cases op <;> rfl
  ne_nil op := by cases op <;> decide
  eq_of_append a b us vs ha hb h := by
    -- A minus sign is told from a word that begins with one by what follows it.
    have hword {c : Char} (hc : c ∉ ['-', '+', '<']) (cs : List Char) (ops : List UnaryOperator) :
        c :: cs ≠ spelled unarySpelling ops ∧ spelled unarySpelling ops ≠ c :: cs :=
      ⟨cons_ne_spelled hc cs ops, (cons_ne_spelled hc cs ops).symm⟩
    have hnot := hword (c := 'n') (by decide)
    have hbnot := hword (c := 'b') (by decide)
    cases a <;> cases ha <;> cases b <;> cases hb <;> simp_all [unarySpelling]

theorem render_prefixed_iff (layout : Layout) (e : Expr) (ops others : List UnaryOperator) :
    render layout (.expr (e.prefixed ops)) = render layout (.expr (e.prefixed others)) ↔
      ops.flatMap UnaryOperator.signs = others.flatMap UnaryOperator.signs :=
  spellsSigns.layOut_prefixed_iff (fun _ _ => rfl) oneLine_expr layout e ops others

end PowerShell

/-- Two chains of operators in front of the same operand are written alike, by either printer, if
and only if they are the same signs. Chains that differ are written differently when no sign stands
in front of a like sign in them. -/
theorem Expr.prefixed_written_alike_iff (layout : Layout) (e : Expr)
    (ops others : List UnaryOperator) :
    (CSharp.render layout (.expr (e.prefixed ops)) =
          CSharp.render layout (.expr (e.prefixed others)) ↔
        ops.flatMap UnaryOperator.signs = others.flatMap UnaryOperator.signs) ∧
      (PowerShell.render layout (.expr (e.prefixed ops)) =
          PowerShell.render layout (.expr (e.prefixed others)) ↔
        ops.flatMap UnaryOperator.signs = others.flatMap UnaryOperator.signs) ∧
      (UnaryOperator.Unfused ops → UnaryOperator.Unfused others → ops ≠ others →
        CSharp.render layout (.expr (e.prefixed ops)) ≠
            CSharp.render layout (.expr (e.prefixed others)) ∧
          PowerShell.render layout (.expr (e.prefixed ops)) ≠
            PowerShell.render layout (.expr (e.prefixed others))) := by
  have hcsharp := CSharp.render_prefixed_iff layout e ops others
  have hpowershell := PowerShell.render_prefixed_iff layout e ops others
  refine ⟨hcsharp, hpowershell, fun hops hothers hne => ⟨fun h => hne ?_, fun h => hne ?_⟩⟩
  · exact UnaryOperator.eq_of_flatMap_signs hops hothers (hcsharp.mp h)
  · exact UnaryOperator.eq_of_flatMap_signs hops hothers (hpowershell.mp h)

theorem Expr.three_signs_told_apart :
    let ops := [UnaryOperator.decrement, .negate]
    let others := [UnaryOperator.negate, .not, .decrement]
    UnaryOperator.Unfused ops ∧ UnaryOperator.Unfused others ∧ ops ≠ others ∧
      CSharp.render {} (.expr ((Expr.identifier "x").prefixed ops)) ≠
        CSharp.render {} (.expr ((Expr.identifier "x").prefixed others)) ∧
      PowerShell.render {} (.expr ((Expr.identifier "x").prefixed ops)) ≠
        PowerShell.render {} (.expr ((Expr.identifier "x").prefixed others)) := by
  intro ops others
  have hops : UnaryOperator.Unfused ops := by decide
  have hothers : UnaryOperator.Unfused others := by decide
  have hne : ops ≠ others := by decide
  obtain ⟨-, -, happart⟩ := Expr.prefixed_written_alike_iff {} (.identifier "x") ops others
  exact ⟨hops, hothers, hne, happart hops hothers hne⟩

/-- Two minus signs in a row are written as a decrement. -/
theorem Expr.two_signs_are_decrement :
    let x := Expr.identifier "x"
    [UnaryOperator.negate, .negate] ≠ [.decrement] ∧
      CSharp.render {} (.expr (x.prefixed [.negate, .negate])) = "--x" ∧
      CSharp.render {} (.expr (x.prefixed [.decrement])) = "--x" ∧
      PowerShell.render {} (.expr (x.prefixed [.negate, .negate])) = "--$x" ∧
      PowerShell.render {} (.expr (x.prefixed [.decrement])) = "--$x" := by
  refine ⟨by decide, ?_, ?_, ?_, ?_⟩ <;> rfl

end Interlingua
