import Interlingua.Host.Conversion

namespace Interlingua

def Diagnostic.construct? : Diagnostic → Option Unsupported
  | .unsupported u => some u
  | .unknownOperator .. => none

theorem Diagnostic.construct?_eq_some {d : Diagnostic} {u : Unsupported} :
    d.construct? = some u ↔ d = .unsupported u := by
  cases d <;> simp [construct?]

namespace Recorded

variable {α β : Type}

theorem bind_ok {a : α} {b : β} {first second : List Diagnostic} {f : α → Recorded β}
    (h : f a = .ok (b, second)) :
    (show Recorded α from .ok (a, first)) >>= f = .ok (b, first ++ second) := by
  change Recorded.bind (.ok (a, first)) f = _
  simp only [Recorded.bind, h]
  rfl

theorem bind_ok_error {a : α} {u : Unsupported} {first : List Diagnostic} {f : α → Recorded β}
    (h : f a = .error u) : (show Recorded α from .ok (a, first)) >>= f = .error u := by
  change Recorded.bind (.ok (a, first)) f = _
  simp only [Recorded.bind, h]
  rfl

theorem bind_eq_ok {x : Recorded α} {f : α → Recorded β} {b : β} {ds : List Diagnostic}
    (h : x >>= f = .ok (b, ds)) :
    ∃ a first second, x = .ok (a, first) ∧ f a = .ok (b, second) ∧ ds = first ++ second := by
  change Recorded.bind x f = _ at h
  cases hx : x with
  | error u => simp [Recorded.bind, hx] at h
  | ok r =>
    obtain ⟨a, first⟩ := r
    cases hf : f a with
    | error u => simp [Recorded.bind, hx, hf] at h
    | ok s =>
      obtain ⟨c, second⟩ := s
      simp only [Recorded.bind, hx, hf] at h
      cases h
      exact ⟨a, first, second, rfl, hf, rfl⟩

theorem bind_eq_ok_iff {x : Recorded α} {f : α → Recorded β} {b : β} {ds : List Diagnostic} :
    x >>= f = .ok (b, ds) ↔
      ∃ a first second, x = .ok (a, first) ∧ f a = .ok (b, second) ∧ ds = first ++ second := by
  refine ⟨bind_eq_ok, ?_⟩
  rintro ⟨a, first, second, rfl, hf, rfl⟩
  exact bind_ok hf

theorem bind_pure_eq_ok_iff {x : Recorded α} {f : α → β} {b : β} {ds : List Diagnostic} :
    x >>= (fun a => pure (f a)) = .ok (b, ds) ↔ ∃ a, x = .ok (a, ds) ∧ f a = b := by
  constructor
  · intro h
    obtain ⟨a, first, second, hx, hf, rfl⟩ := bind_eq_ok h
    cases hf
    exact ⟨a, by rw [hx, List.append_nil], rfl⟩
  · rintro ⟨a, hx, rfl⟩
    exact bind_eq_ok_iff.mpr ⟨a, ds, [], hx, rfl, (List.append_nil ds).symm⟩

theorem bind_pure_eq_error_iff {x : Recorded α} {f : α → β} {u : Unsupported} :
    x >>= (fun a => pure (f a)) = .error u ↔ x = .error u := by
  refine ⟨fun h => ?_, fun h => ?_⟩
  · cases x with
    | error v =>
      cases h
      rfl
    | ok r => cases h
  · rw [h]
    rfl

instance : LawfulMonad Recorded := by
  refine LawfulMonad.mk' Recorded (fun x => ?_) bind_pure fun x f g => ?_
  · cases x with
    | error u => rfl
    | ok r => exact congrArg Except.ok (Prod.ext rfl (List.append_nil r.2))
  · change Recorded.bind (Recorded.bind x f) g = Recorded.bind x fun a => Recorded.bind (f a) g
    cases x with
    | error u => rfl
    | ok r =>
      cases hf : f r.1 with
      | error u =>
        simp only [Recorded.bind, hf]
        rfl
      | ok s =>
        cases hg : g s.1 <;> simp only [Recorded.bind, hf, hg, List.append_assoc] <;> rfl

theorem mem_of_mapM {f : α → Recorded β} {as : List α} {bs : List β}
    {ds : List Diagnostic} (h : as.mapM f = .ok (bs, ds)) {a : α} (ha : a ∈ as) :
    ∃ b recorded, f a = .ok (b, recorded) ∧ b ∈ bs ∧ recorded ⊆ ds := by
  induction as generalizing bs ds with
  | nil => cases ha
  | cons d as ih =>
    rw [List.mapM_cons] at h
    obtain ⟨b, first, _, hb, hrest, rfl⟩ := bind_eq_ok h
    obtain ⟨cs, second, _, hcs, hlast, rfl⟩ := bind_eq_ok hrest
    cases hlast
    obtain rfl | ha := List.mem_cons.mp ha
    · exact ⟨b, first, hb, List.mem_cons_self, List.subset_append_left _ _⟩
    · obtain ⟨c, recorded, hc, hmem, hsub⟩ := ih hcs ha
      refine ⟨c, recorded, hc, List.mem_cons_of_mem b hmem, fun d hd => ?_⟩
      simp [hsub hd]

theorem mem_of_unsupported {policy : ReadPolicy} {kind : String} {extent : Extent} {e : Expr}
    {ds : List Diagnostic} (h : unsupported policy kind extent = .ok (e, ds)) :
    .unsupported ⟨kind, extent⟩ ∈ ds := by
  unfold unsupported at h
  split at h
  · cases h
  · cases h
    exact List.mem_singleton_self _

theorem standIn_of_unsupported {policy : ReadPolicy} {kind : String} {extent : Extent} {e : Expr}
    {ds : List Diagnostic} (h : unsupported policy kind extent = .ok (e, ds)) :
    policy.onUnsupported = .standIn := by
  unfold unsupported at h
  split at h
  · cases h
  · assumption

def Yields (x : Recorded α) (p : α → List Diagnostic → Prop) : Prop :=
  ∀ a ds, x = .ok (a, ds) → p a ds

namespace Yields

theorem pure {a : α} {p : α → List Diagnostic → Prop} (h : p a []) :
    Yields (Pure.pure a) p := by
  intro b ds hb
  cases hb
  exact h

theorem bind {x : Recorded α} {f : α → Recorded β} {p : α → List Diagnostic → Prop}
    {q : β → List Diagnostic → Prop} (h : Yields x p)
    (hf : ∀ a first, p a first → Yields (f a) fun b second => q b (first ++ second)) :
    Yields (x >>= f) q := by
  intro b ds hb
  obtain ⟨a, first, second, hx, hfa, rfl⟩ := bind_eq_ok hb
  exact hf a first (h a first hx) b second hfa

theorem of_bind {x : Recorded α} {f : α → Recorded β} {q : β → Prop}
    (h : ∀ a, Yields (f a) fun b _ => q b) : Yields (x >>= f) fun b _ => q b :=
  .bind (p := fun _ _ => True) (fun _ _ _ => trivial) fun a _ _ => h a

theorem and {x : Recorded α} {p q : α → List Diagnostic → Prop} (hp : Yields x p)
    (hq : Yields x q) : Yields x fun a ds => p a ds ∧ q a ds :=
  fun a ds h => ⟨hp a ds h, hq a ds h⟩

theorem unsupported {p : Expr → List Diagnostic → Prop} (dup : OnDuplicate) (kind : String)
    (extent : Extent) : Yields (unsupported ⟨.stop, dup⟩ kind extent) p := by
  intro e ds h
  cases h

end Yields

/-- The reading `y` succeeds, and `x` is `y` ended at the first construct that a literal stands in
for. Without such a construct the two are one. -/
def CutShort (x y : Recorded α) : Prop :=
  ∃ a ds, y = .ok (a, ds) ∧
    x = match ds.findSome? Diagnostic.construct? with
      | none => .ok (a, ds)
      | some u => .error u

namespace CutShort

theorem pure (a : α) : CutShort (Pure.pure a) (Pure.pure a) := ⟨a, [], rfl, rfl⟩

theorem bind {x y : Recorded α} {f g : α → Recorded β} (h : CutShort x y)
    (hfg : ∀ a, CutShort (f a) (g a)) : CutShort (x >>= f) (y >>= g) := by
  obtain ⟨a, first, rfl, rfl⟩ := h
  obtain ⟨b, second, hg, hf⟩ := hfg a
  refine ⟨b, first ++ second, bind_ok hg, ?_⟩
  rw [List.findSome?_append]
  cases first.findSome? Diagnostic.construct? with
  | some u => rfl
  | none =>
    cases hs : second.findSome? Diagnostic.construct? with
    | some u =>
      rw [hs] at hf
      change Recorded.bind (.ok (a, first)) f = .error u
      rw [Recorded.bind, hf]
    | none =>
      rw [hs] at hf
      exact bind_ok hf

theorem unsupported (dup : OnDuplicate) (kind : String) (extent : Extent) :
    CutShort (unsupported ⟨.stop, dup⟩ kind extent) (unsupported ⟨.standIn, dup⟩ kind extent) :=
  ⟨_, _, rfl, rfl⟩

end CutShort

end Recorded

end Interlingua
