import Interlingua.Proofs.ReadAlike
import Interlingua.Proofs.StandIn
import Interlingua.Tree.Equality

namespace Interlingua

def Diagnostic.unplaced (d : Diagnostic) : Diagnostic := d.moved fun _ => {}

namespace Recorded.Alike

variable {α γ : Type} {place : Extent → Extent} {view : α → γ} {x y z : Recorded α}

theorem results (hx : Alike place view x z) (hy : Alike place view y z) :
    (∃ a ds b ds', x = .ok (a, ds) ∧ y = .ok (b, ds') ∧ view a = view b ∧
      ds.map (·.moved place) = ds'.map (·.moved place)) ∨
    ∃ u v, x = .error u ∧ y = .error v ∧ u.moved place = v.moved place := by
  cases hx with
  | @ok a c ds ha =>
    generalize hz : (Except.ok (c, ds.map (·.moved place)) : Recorded α) = z at hy
    cases hy with
    | error v => cases hz
    | @ok b d ds' hb =>
      injection hz with hz
      obtain ⟨rfl, hds⟩ := Prod.mk.inj hz
      exact .inl ⟨a, ds, b, ds', rfl, rfl, ha.trans hb.symm, hds⟩
  | error u =>
    generalize hz : (Except.error (u.moved place) : Recorded α) = z at hy
    cases hy with
    | ok hb => cases hz
    | error v =>
      injection hz with hz
      exact .inr ⟨u, v, rfl, rfl, hz⟩

end Recorded.Alike

namespace Host

def Relabeling.unplacing : Relabeling where
  node _ _ := {}
  part _ := {}

def Ast.unplaced (a : Ast) : Ast := a.relabel Relabeling.unplacing

theorem Relabeling.unplacing_unseen {policy : ReadPolicy} {view : String → String}
    (h : policy.onUnsupported = .standIn → ∀ s t, view s = view t) :
    unplacing.Unseen policy (fun _ => {}) view where
  node _ _ := rfl
  binary _ := rfl
  binary_unknown _ _ := rfl
  unary _ := rfl
  unary_unknown _ _ := rfl
  standIn hs _ _ := h hs _ _

theorem Ast.toStmt_of_unplaced_eq (policy : ReadPolicy) (view : String → String)
    (hview : policy.onUnsupported = .standIn → ∀ s t, view s = view t) {a b : Ast}
    (h : a.unplaced = b.unplaced) :
    (∃ s ds t ds', a.toStmt policy = .ok (s, ds) ∧ b.toStmt policy = .ok (t, ds') ∧
      s.mapLiterals view = t.mapLiterals view ∧
      ds.map Diagnostic.unplaced = ds'.map Diagnostic.unplaced) ∨
    ∃ u v, a.toStmt policy = .error u ∧ b.toStmt policy = .error v ∧ u.kind = v.kind := by
  -- Both trees are read like the one without positions.
  have ha := a.toStmt_alike (Relabeling.unplacing_unseen hview)
  have hb := b.toStmt_alike (Relabeling.unplacing_unseen hview)
  change Recorded.Alike _ _ _ (b.unplaced.toStmt _) at hb
  rw [← h] at hb
  obtain hok | ⟨u, v, hu, hv, huv⟩ := ha.results hb
  · exact .inl hok
  · exact .inr ⟨u, v, hu, hv, (Unsupported.mk.inj huv).1⟩

/-- Trees that differ in positions only are read alike. A reading that stops at constructs gives
one node for both or fails with one kind of construct; where literals stand in for constructs, both
give a tree, and these differ in the texts of literals only. -/
theorem Ast.toReading_of_unplaced_eq (dup : OnDuplicate) {a b : Ast} (h : a.unplaced = b.unplaced) :
    ((∃ r r', a.toReading ⟨.stop, dup⟩ = .ok r ∧ b.toReading ⟨.stop, dup⟩ = .ok r' ∧
        r.node = r'.node ∧
        r.diagnostics.map Diagnostic.unplaced = r'.diagnostics.map Diagnostic.unplaced) ∨
      ∃ u u', a.toReading ⟨.stop, dup⟩ = .error u ∧ b.toReading ⟨.stop, dup⟩ = .error u' ∧
        u.kind = u'.kind) ∧
    ∃ r r', a.toReading ⟨.standIn, dup⟩ = .ok r ∧ b.toReading ⟨.standIn, dup⟩ = .ok r' ∧
      r.node.mapLiterals (fun _ => "") = r'.node.mapLiterals (fun _ => "") ∧
      r.diagnostics.map Diagnostic.unplaced = r'.diagnostics.map Diagnostic.unplaced := by
  constructor
  · obtain ⟨s, ds, t, ds', hs, ht, heq, hds⟩ | ⟨u, v, hu, hv, huv⟩ :=
      toStmt_of_unplaced_eq ⟨.stop, dup⟩ id nofun h
    · rw [Stmt.mapLiterals_id, Stmt.mapLiterals_id] at heq
      refine .inl ⟨⟨.stmt s, ds⟩, ⟨.stmt t, ds'⟩, ?_, ?_, congrArg Node.stmt heq, hds⟩
      · simp only [toReading, hs]
      · simp only [toReading, ht]
    · refine .inr ⟨u, v, ?_, ?_, huv⟩
      · simp only [toReading, hu]
      · simp only [toReading, hv]
  · obtain ⟨s, ds, t, ds', hs, ht, heq, hds⟩ | ⟨u, v, hu, -, -⟩ :=
      toStmt_of_unplaced_eq ⟨.standIn, dup⟩ (fun _ => "") (fun _ _ _ => rfl) h
    · refine ⟨⟨.stmt s, ds⟩, ⟨.stmt t, ds'⟩, ?_, ?_, congrArg Node.stmt heq, hds⟩
      · simp only [toReading, hs]
      · simp only [toReading, ht]
    · obtain ⟨s, ds, hs, -⟩ := a.toStmt_cutShort dup
      rw [hs] at hu
      cases hu

def tableCommand (extent : Extent) : Ast :=
  ⟨extent, .scriptBlock (some []) [⟨extent, .assignment ⟨extent, .var "x"⟩ "QuestionEquals"
    ⟨extent, .command [⟨extent, .stringConstant "New-Object"⟩,
      ⟨extent, .commandParameter "TypeName" none⟩, ⟨extent, .hashtable⟩]⟩⟩]⟩

theorem toReading_tableCommand :
    (tableCommand ⟨1, 1, 1, 9, "@()"⟩).unplaced = (tableCommand ⟨2, 5, 2, 7, "Int"⟩).unplaced ∧
      ∃ r r',
        (tableCommand ⟨1, 1, 1, 9, "@()"⟩).toReading ⟨.standIn, .keepLast⟩ = .ok r ∧
        (tableCommand ⟨2, 5, 2, 7, "Int"⟩).toReading ⟨.standIn, .keepLast⟩ = .ok r' ∧
        r.node ≠ r'.node ∧
        r.node.mapLiterals (fun _ => "") = r'.node.mapLiterals (fun _ => "") ∧
        r.diagnostics.map Diagnostic.unplaced = r'.diagnostics.map Diagnostic.unplaced := by
  have h : (tableCommand ⟨1, 1, 1, 9, "@()"⟩).unplaced =
      (tableCommand ⟨2, 5, 2, 7, "Int"⟩).unplaced := rfl
  obtain ⟨-, r, r', hr, hr', hnode, hds⟩ := Ast.toReading_of_unplaced_eq .keepLast h
  refine ⟨h, r, r', hr, hr', ?_, hnode, hds⟩
  cases hr
  cases hr'
  decide

end Host

end Interlingua
