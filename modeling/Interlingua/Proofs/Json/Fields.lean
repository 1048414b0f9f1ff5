import Interlingua.Json.Decode

namespace Interlingua.Json

variable {α β : Type}

theorem members?_object {members : List (String × Json)} (h : (members.map Prod.fst).Nodup)
    (keys : List String) : members? keys (.object members) = some members := by
  have hcount (key : String) : members.countP (·.1 == key) ≤ 1 := by
    have hk := List.nodup_iff_count.mp h key
    rwa [List.count_eq_countP, List.countP_map] at hk
  simp [members?, hcount]

theorem fields?_object {members : List (String × Json)} (h : (members.map Prod.fst).Nodup)
    (keys : List String) : fields? keys (.object members) = some members :=
  members?_object h keys

theorem allFields?_object {members : List (String × Json)} (h : (members.map Prod.fst).Nodup)
    (keys : List String) : allFields? keys (.object members) = some members :=
  members?_object h keys

namespace Fields

variable {members : Fields} {key k : String} {v : Json} {f : Json → Option α}

@[simp]
theorem required_cons :
    required ((k, v) :: members) key f = if key = k then f v else members.required key f := by
  by_cases h : key = k
  · simp [required, h]
  · simp [required, List.lookup_cons, beq_eq_false_iff_ne.mpr h, h]

@[simp]
theorem defaulted_cons {default : α} :
    defaulted ((k, v) :: members) key default f =
      if key = k then f v else members.defaulted key default f := by
  by_cases h : key = k
  · simp [defaulted, h]
  · simp [defaulted, List.lookup_cons, beq_eq_false_iff_ne.mpr h, h]

@[simp]
theorem optional_cons :
    optional ((k, v) :: members) key f =
      if key = k then optional? f v else members.optional key f :=
  defaulted_cons

end Fields

theorem optional?_of_ne_null {v : Json} (h : v ≠ null) (f : Json → Option α) :
    optional? f v = (f v).map some := by
  cases v with
  | null => exact absurd rfl h
  | _ => rfl

theorem optional?_ofOption {f : Json → Option α} {g : α → Json}
    (h : ∀ a, g a ≠ null ∧ f (g a) = some a) (o : Option α) :
    optional? f (ofOption g o) = some o := by
  cases o with
  | none => rfl
  | some a => rw [ofOption, optional?_of_ne_null (h a).1, (h a).2]; rfl

@[simp]
theorem optional?_string (o : Option String) : optional? string? (ofOption string o) = some o := by
  cases o <;> rfl

theorem list?_map {f : Json → Option α} {g : α → Json} (h : ∀ a, f (g a) = some a) (as : List α) :
    list? f (array (as.map g)) = some as := by
  change (as.map g).mapM f = some as
  induction as with
  | nil => rfl
  | cons a as ih => simp [List.mapM_cons, h, ih]

theorem depthOfItems_cons_lt {v : Json} {items : List Json} {d : Nat} :
    depthOfItems (v :: items) < d ↔ v.depth < d ∧ depthOfItems items < d :=
  Nat.max_lt

end Interlingua.Json
