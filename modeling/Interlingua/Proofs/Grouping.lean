import Interlingua.Tree.Expr

namespace Interlingua

/-- Nothing stands between two entries that are both the last of the least. -/
theorem eq_nil_of_least {α : Type} {key : α → Nat} {x x' : α} {mid ys ys' : List α}
    (hys : ∀ y ∈ ys, key x < key y) (hmid : ∀ y ∈ mid, key x' ≤ key y)
    (h : x :: ys = mid ++ x' :: ys') : mid = [] := by
  cases mid with
  | nil => rfl
  | cons y mid =>
    obtain ⟨rfl, rfl⟩ := List.cons.inj h
    have hlt := hys x' (by simp)
    have hle := hmid x List.mem_cons_self
    omega

theorem append_cons_inj_of_least {α : Type} (key : α → Nat) {x x' : α} {xs xs' ys ys' : List α}
    (hxs : ∀ y ∈ xs, key x ≤ key y) (hys : ∀ y ∈ ys, key x < key y)
    (hxs' : ∀ y ∈ xs', key x' ≤ key y) (hys' : ∀ y ∈ ys', key x' < key y)
    (h : xs ++ x :: ys = xs' ++ x' :: ys') : xs = xs' ∧ x = x' ∧ ys = ys' := by
  rcases List.append_eq_append_iff.mp h with ⟨mid, rfl, hmid⟩ | ⟨mid, rfl, hmid⟩
  · obtain rfl := eq_nil_of_least hys (List.forall_mem_append.mp hxs').2 hmid
    obtain ⟨rfl, rfl⟩ := List.cons.inj hmid
    exact ⟨(List.append_nil xs).symm, rfl, rfl⟩
  · obtain rfl := eq_nil_of_least hys' (List.forall_mem_append.mp hxs).2 hmid
    obtain ⟨rfl, rfl⟩ := List.cons.inj hmid
    exact ⟨List.append_nil xs', rfl, rfl⟩

namespace Expr

/-- The operand on the far left of a chain. -/
def first : Expr → Expr
  | .binary left _ _ => left.first
  | e => e
termination_by structural e => e

/-- The operators of a chain in their order, each with the operand behind it. -/
def rest : Expr → List (BinaryOperator × Expr)
  | .binary left op right => left.rest ++ (op, right.first) :: right.rest
  | _ => []
termination_by structural e => e

def operands (e : Expr) : List Expr := e.first :: e.rest.map Prod.snd

theorem operands_binary (left : Expr) (op : BinaryOperator) (right : Expr) :
    (binary left op right).operands = left.operands ++ right.operands := by
  simp [operands, first, rest]

theorem first_eq_of_rest_eq_nil {e : Expr} (h : e.rest = []) : e.first = e := by
  cases e with
  | binary left op right => exact absurd h (by simp [rest])
  | _ => rfl

theorem rest_of_mem_operands {e x : Expr} (h : x ∈ e.operands) : x.rest = [] := by
  cases e with
  | binary left op right =>
    rw [operands_binary, List.mem_append] at h
    exact h.elim rest_of_mem_operands rest_of_mem_operands
  | _ =>
    obtain rfl := List.mem_singleton.mp h
    rfl
termination_by structural e

/-- The rank of the operator that joins last is not below `least`. -/
def Binds (rank : BinaryOperator → Nat) (least : Nat) : Expr → Prop
  | .binary _ op _ => least ≤ rank op
  | _ => True

/-- The ranks alone say how the operators are grouped: what is grouped otherwise stands in
parentheses. -/
def GroupedBy (rank : BinaryOperator → Nat) : Expr → Prop
  | .binary left op right =>
    Binds rank (rank op) left ∧ Binds rank (rank op + 1) right ∧
      left.GroupedBy rank ∧ right.GroupedBy rank
  | .grouped inner => inner.GroupedBy rank
  | _ => True
termination_by structural e => e

variable {rank : BinaryOperator → Nat}

instance decidableBinds (least : Nat) : (e : Expr) → Decidable (Binds rank least e)
  | .binary _ op _ => inferInstanceAs (Decidable (least ≤ rank op))
  | .literal _ | .string _ | .template _ | .identifier _ | .before .. | .after .. | .cast ..
  | .grouped _ | .member .. | .element .. | .call .. | .create .. | .array .. | .assign .. =>
    .isTrue trivial

instance decidableGroupedBy : (e : Expr) → Decidable (e.GroupedBy rank)
  | .binary left op right =>
    have := decidableGroupedBy left
    have := decidableGroupedBy right
    inferInstanceAs (Decidable (Binds rank (rank op) left ∧ Binds rank (rank op + 1) right ∧
      left.GroupedBy rank ∧ right.GroupedBy rank))
  | .grouped inner => decidableGroupedBy inner
  | .literal _ | .string _ | .template _ | .identifier _ | .before .. | .after .. | .cast ..
  | .member .. | .element .. | .call .. | .create .. | .array .. | .assign .. => .isTrue trivial
termination_by structural e => e

theorem GroupedBy.of_mem_operands {e x : Expr} (he : e.GroupedBy rank)
    (h : x ∈ e.operands) : x.GroupedBy rank := by
  cases e with
  | binary left op right =>
    obtain ⟨-, -, hl, hr⟩ := he
    rw [operands_binary, List.mem_append] at h
    exact h.elim (GroupedBy.of_mem_operands hl) (GroupedBy.of_mem_operands hr)
  | _ =>
    obtain rfl := List.mem_singleton.mp h
    exact he
termination_by structural e

theorem Binds.mono {e : Expr} {m n : Nat} (h : Binds rank n e) (hmn : m ≤ n) :
    Binds rank m e := by
  cases e with
  | binary left op right => exact Nat.le_trans hmn h
  | _ => trivial

theorem GroupedBy.le_of_mem_rest {e : Expr} {n : Nat} (he : e.GroupedBy rank)
    (hn : Binds rank n e) : ∀ p ∈ e.rest, n ≤ rank p.1 := by
  cases e with
  | binary left op right =>
    obtain ⟨hleft, hright, hl, hr⟩ := he
    have hle : n ≤ rank op := hn
    have hrest := hr.le_of_mem_rest (hright.mono (Nat.le_succ_of_le hle))
    rw [rest, List.forall_mem_append, List.forall_mem_cons]
    exact ⟨fun p hp => Nat.le_trans hle (hl.le_of_mem_rest hleft p hp), hle, hrest⟩
  | _ => exact List.forall_mem_nil _
termination_by structural e

/-- The row of operands and operators has one tree that is grouped by the ranks. -/
theorem GroupedBy.eq_of_row {a b : Expr} (ha : a.GroupedBy rank) (hb : b.GroupedBy rank)
    (hfirst : a.first = b.first) (hrest : a.rest = b.rest) : a = b := by
  cases a with
  | binary left op right =>
    cases b with
    | binary left' op' right' =>
      obtain ⟨hleft, hright, hl, hr⟩ := ha
      obtain ⟨hleft', hright', hl', hr'⟩ := hb
      -- The operator that joins last is the last of those with the least rank.
      obtain ⟨hrl, hop, hrr⟩ := append_cons_inj_of_least (fun p => rank p.1)
        (hl.le_of_mem_rest hleft) (hr.le_of_mem_rest hright)
        (hl'.le_of_mem_rest hleft') (hr'.le_of_mem_rest hright') hrest
      obtain ⟨rfl, hfr⟩ := Prod.mk.inj hop
      rw [hl.eq_of_row hl' hfirst hrl, hr.eq_of_row hr' hfr hrr]
    | _ => exact absurd hrest (by simp [rest])
  | _ => exact hfirst.trans (first_eq_of_rest_eq_nil hrest.symm)
termination_by structural a

def behind (x : Expr) (op : BinaryOperator) : Expr → Expr
  | .binary left op' right => .binary (behind x op left) op' right
  | e => .binary x op e
termination_by structural e => e

/-- The tree in which every chain is joined from left to right. -/
def leftward : Expr → Expr
  | .binary left op right => behind left.leftward op right.leftward
  | .grouped inner => .grouped inner.leftward
  | e => e
termination_by structural e => e

theorem groupedBy_behind {x e : Expr} (op : BinaryOperator) (hx : x.GroupedBy fun _ => 0)
    (he : e.GroupedBy fun _ => 0) : (behind x op e).GroupedBy fun _ => 0 := by
  have hleast (e : Expr) : Binds (fun _ => 0) 0 e := by
    cases e with
    | binary left op right => exact Nat.le_refl 0
    | _ => trivial
  cases e with
  | binary left op' right =>
    obtain ⟨-, hright, hl, hr⟩ := he
    exact ⟨hleast _, hright, groupedBy_behind op hx hl, hr⟩
  | _ => exact ⟨hleast x, trivial, hx, he⟩
termination_by structural e

theorem groupedBy_leftward (e : Expr) : e.leftward.GroupedBy fun _ => 0 := by
  cases e with
  | binary left op right =>
    exact groupedBy_behind op (groupedBy_leftward left) (groupedBy_leftward right)
  | grouped inner => exact groupedBy_leftward inner
  | _ => trivial
termination_by structural e

end Expr

end Interlingua
