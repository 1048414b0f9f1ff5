import Interlingua.Proofs.MentionsWritten.CSharp
import Interlingua.Proofs.MentionsWritten.PowerShell
import Interlingua.Proofs.Page.Printers

namespace Interlingua

/-- A character that Unicode leaves to private use. -/
def isPrivateUse (c : Char) : Bool :=
  (0xE000 ≤ c.toNat && c.toNat ≤ 0xF8FF) || (0xF0000 ≤ c.toNat && c.toNat ≤ 0xFFFFD) ||
    (0x100000 ≤ c.toNat && c.toNat ≤ 0x10FFFD)

theorem beyondAscii_isPrivateUse : BeyondAscii isPrivateUse := by
  intro c hc
  simp only [isPrivateUse, Bool.or_eq_false_iff, Bool.and_eq_false_iff, decide_eq_false_iff_not]
  omega

variable {p : Char → Bool}

theorem CSharp.filter_render (hp : BeyondAscii p) (layout : Layout) {n : Node}
    (h : LabelsAvoid p n.mentions) :
    (render layout n).toList.filter p = n.writtenLeaves.flatMap (·.toList.filter p) := by
  rw [render, hp.filter_layOut layout (composed_node _ n), marks_node hp _ n h, Mention.allMarks_eq,
    Node.writtenLeaves]

theorem PowerShell.filter_render (hp : BeyondAscii p) (layout : Layout) {n : Node}
    (h : LabelsAvoid p n.mentions) :
    (render layout n).toList.filter p = n.writtenLeaves.flatMap (·.toList.filter p) := by
  rw [render, hp.filter_layOut layout (composed_node _ n), marks_node hp _ n h, Mention.allMarks_eq,
    Node.writtenLeaves]

theorem flatMap_filter_singleton {cs : List Char} (h : ∀ c ∈ cs, p c = true) :
    (cs.map String.singleton).flatMap (·.toList.filter p) = cs := by
  induction cs with
  | nil => rfl
  | cons c cs ih =>
    obtain ⟨hc, hcs⟩ := List.forall_mem_cons.mp h
    simp [hc, ih hcs]

/-- No leaf is lost, repeated or moved. The leaves need not differ. -/
theorem Node.leaves_written (layout : Layout) (n : Node) (cs : List Char)
    (hleaves : n.writtenLeaves = cs.map String.singleton)
    (hprivate : ∀ c ∈ cs, isPrivateUse c = true)
    (hlabels : ∀ l, .label l ∈ n.mentions → ∀ c ∈ l.toList, isPrivateUse c = false) :
    (CSharp.render layout n).toList.filter isPrivateUse = cs ∧
      (PowerShell.render layout n).toList.filter isPrivateUse = cs := by
  have havoid : LabelsAvoid isPrivateUse n.mentions := by
    intro m hm
    cases m with
    | label l =>
      refine List.filter_eq_nil_iff.mpr fun c hc => ?_
      rw [hlabels l hm c hc]
      exact Bool.false_ne_true
    | _ => trivial
  have hcs : n.writtenLeaves.flatMap (·.toList.filter isPrivateUse) = cs := by
    rw [hleaves, flatMap_filter_singleton hprivate]
  exact ⟨(CSharp.filter_render beyondAscii_isPrivateUse layout havoid).trans hcs,
    (PowerShell.filter_render beyondAscii_isPrivateUse layout havoid).trans hcs⟩

theorem Node.leaves_written_loop :
    let n : Node := .stmt (.forEach "\ue000" (.identifier "\ue001") (.block
      [.expr (.call (.member (.identifier "\ue002") "Add" true)
        [⟨some "value", some (.string "\ue003")⟩, ⟨some "force", none⟩]),
        .ret (some (.template "\ue004"))]))
    n.writtenLeaves = ['\ue000', '\ue001', '\ue002', '\ue003', '\ue004'].map String.singleton ∧
      (CSharp.render ⟨4, none⟩ n).toList.filter isPrivateUse =
        ['\ue000', '\ue001', '\ue002', '\ue003', '\ue004'] ∧
      (PowerShell.render ⟨4, none⟩ n).toList.filter isPrivateUse =
        ['\ue000', '\ue001', '\ue002', '\ue003', '\ue004'] := by
  have hlabels : ∀ l ∈ ["Add", "value", "force"], ∀ c ∈ l.toList, isPrivateUse c = false := by
    simp [isPrivateUse]
  have hprivate : ∀ c ∈ ['\ue000', '\ue001', '\ue002', '\ue003', '\ue004'],
      isPrivateUse c = true := by
    simp [isPrivateUse]
  refine ⟨by decide, leaves_written ⟨4, none⟩ _ _ (by decide) hprivate fun l hl => hlabels l ?_⟩
  simpa [Node.mentions, Stmt.mentions, Stmt.allMentions, Expr.mentions, Expr.optMentions,
    Argument.mentions, Argument.allMentions] using hl

end Interlingua
