namespace Interlingua.Template

variable {opening closing : Char} {depth : Nat}

/-- The brackets match when `depth` of them are open already. -/
def Nested (opening closing : Char) (depth : Nat) (cs : List Char) : Prop :=
  cs.count closing = cs.count opening + depth ∧
    ∀ ds, ds <+: cs → ds.count closing ≤ ds.count opening + depth

/-- What stands before the bracket that closes the outermost of `depth + 1` open ones, and what
follows that bracket. -/
def enclosedBy (opening closing : Char) : Nat → List Char → Option (List Char × List Char)
  | _, [] => none
  | depth, c :: cs =>
    if c = closing then
      match depth with
      | 0 => some ([], cs)
      | depth + 1 => (enclosedBy opening closing depth cs).map fun r => (c :: r.1, r.2)
    else if c = opening then
      (enclosedBy opening closing (depth + 1) cs).map fun r => (c :: r.1, r.2)
    else (enclosedBy opening closing depth cs).map fun r => (c :: r.1, r.2)

theorem forall_prefix_cons {α : Type} {x : α} {xs : List α} {p : List α → Prop} :
    (∀ ys, ys <+: x :: xs → p ys) ↔ p [] ∧ ∀ ys, ys <+: xs → p (x :: ys) := by
  constructor
  · intro h
    exact ⟨h [] List.nil_prefix, fun ys hys => h (x :: ys) (List.cons_prefix_cons.mpr ⟨rfl, hys⟩)⟩
  · rintro ⟨hnil, hcons⟩ ys hys
    obtain rfl | ⟨zs, rfl, hzs⟩ := List.prefix_cons_iff.mp hys
    · exact hnil
    · exact hcons zs hzs

theorem nested_nil : Nested opening closing depth [] ↔ depth = 0 := by
  simp [Nested, eq_comm]

theorem nested_opening (h : opening ≠ closing) {cs : List Char} :
    Nested opening closing depth (opening :: cs) ↔ Nested opening closing (depth + 1) cs := by
  simp [Nested, forall_prefix_cons, List.count_cons_of_ne h, Nat.add_assoc, Nat.add_comm 1]

theorem nested_closing (h : opening ≠ closing) {cs : List Char} :
    Nested opening closing (depth + 1) (closing :: cs) ↔ Nested opening closing depth cs := by
  simp [Nested, forall_prefix_cons, List.count_cons_of_ne h.symm, ← Nat.add_assoc]

theorem not_nested_closing (h : opening ≠ closing) {cs : List Char} :
    ¬ Nested opening closing 0 (closing :: cs) := by
  rintro ⟨-, hp⟩
  have hp := hp [closing] (List.cons_prefix_cons.mpr ⟨rfl, List.nil_prefix⟩)
  simp [List.count_cons_of_ne h.symm] at hp

theorem nested_other {c : Char} {cs : List Char} (ho : c ≠ opening) (hc : c ≠ closing) :
    Nested opening closing depth (c :: cs) ↔ Nested opening closing depth cs := by
  simp [Nested, forall_prefix_cons, List.count_cons_of_ne, ho, hc]

theorem extended_eq_some_iff {depth' : Nat} {x : Char} {cs source rest : List Char}
    {o : Option (List Char × List Char)}
    (ho : ∀ s, o = some (s, rest) ↔ cs = s ++ closing :: rest ∧ Nested opening closing depth s)
    (hx : ∀ s, Nested opening closing depth' (x :: s) ↔ Nested opening closing depth s)
    (hnil : x = closing → ¬ Nested opening closing depth' []) :
    o.map (fun r => (x :: r.1, r.2)) = some (source, rest) ↔
      x :: cs = source ++ closing :: rest ∧ Nested opening closing depth' source := by
  rw [Option.map_eq_some_iff]
  constructor
  · rintro ⟨⟨s, r⟩, hr, he⟩
    cases he
    obtain ⟨rfl, hs⟩ := (ho s).mp hr
    exact ⟨rfl, (hx s).mpr hs⟩
  · rintro ⟨h, hb⟩
    cases source with
    | nil =>
      cases h
      exact absurd hb (hnil rfl)
    | cons y s =>
      obtain ⟨rfl, hcs⟩ := List.cons.inj h
      exact ⟨(s, rest), (ho s).mpr ⟨hcs, (hx s).mp hb⟩, rfl⟩

/-- What is enclosed has matching brackets and stands before the bracket that closes it. -/
theorem enclosedBy_eq_some_iff (h : opening ≠ closing) {cs source rest : List Char} :
    enclosedBy opening closing depth cs = some (source, rest) ↔
      cs = source ++ closing :: rest ∧ Nested opening closing depth source := by
  induction cs generalizing depth source with
  | nil => simp [enclosedBy]
  | cons c cs ih =>
    unfold enclosedBy
    by_cases hc : c = closing
    · rw [if_pos hc, hc]
      cases depth with
      | zero =>
        cases source with
        | nil => simp [nested_nil, eq_comm]
        | cons d source =>
          refine iff_of_false (by simp) ?_
          rintro ⟨hs, hn⟩
          obtain ⟨rfl, -⟩ := List.cons.inj hs
          exact not_nested_closing h hn
      | succ depth =>
        exact extended_eq_some_iff (fun _ => ih) (fun _ => nested_closing h) (by simp [nested_nil])
    · rw [if_neg hc]
      by_cases ho : c = opening
      · rw [if_pos ho, ho]
        exact extended_eq_some_iff (fun _ => ih) (fun _ => nested_opening h) fun he => absurd he h
      · rw [if_neg ho]
        exact extended_eq_some_iff (fun _ => ih) (fun _ => nested_other ho hc)
          fun he => absurd he hc

end Interlingua.Template
