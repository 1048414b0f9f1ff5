import Interlingua.Proofs.Grouping
import Interlingua.Proofs.Template.Reference

namespace Interlingua

open Template (Nested nested_nil nested_opening nested_closing nested_other enclosedBy
  enclosedBy_eq_some_iff span_ne_iff)

/-- Identifiers, operators and parentheses, and nothing else. -/
def Expr.IsOperation (known : BinaryOperator → Prop) : Expr → Prop
  | .identifier name => name ≠ "" ∧ ∀ c ∈ name.toList, c.isAlpha
  | .binary left op right => left.IsOperation known ∧ known op ∧ right.IsOperation known
  | .grouped inner => inner.IsOperation known
  | _ => False
termination_by structural e => e

instance Expr.decidableIsOperation {known : BinaryOperator → Prop} [DecidablePred known] :
    (e : Expr) → Decidable (e.IsOperation known)
  | .identifier name =>
    have : Decidable (∀ c ∈ name.toList, c.isAlpha) := List.decidableBAll _ _
    inferInstanceAs (Decidable (name ≠ "" ∧ ∀ c ∈ name.toList, c.isAlpha))
  | .binary left op right =>
    have : Decidable (left.IsOperation known) := decidableIsOperation left
    have : Decidable (right.IsOperation known) := decidableIsOperation right
    inferInstanceAs (Decidable (left.IsOperation known ∧ known op ∧ right.IsOperation known))
  | .grouped inner => decidableIsOperation inner
  | .literal _ | .string _ | .template _ | .before .. | .after .. | .cast .. | .member ..
  | .element .. | .call .. | .create .. | .array .. | .assign .. => .isFalse id
termination_by structural e => e

/-- The text has no character that parts operands, operators and groups. -/
def Unbroken (text : List Char) : Prop := ∀ c ∈ text, c ∉ ['(', ')', ' ']

instance (text : List Char) : Decidable (Unbroken text) := List.decidableBAll _ text

/-- How a language writes operations. -/
structure OperatorSyntax where
  source : Expr → List Char
  sigil : List Char
  spelling : BinaryOperator → List Char
  known : BinaryOperator → Prop
  source_identifier : ∀ name, source (.identifier name) = sigil ++ name.toList
  source_grouped : ∀ inner, source (.grouped inner) = '(' :: source inner ++ [')']
  source_binary : ∀ left op right,
    source (.binary left op right) = source left ++ ' ' :: spelling op ++ ' ' :: source right
  unbroken_sigil : Unbroken sigil
  unbroken_spelling : ∀ op, known op → Unbroken (spelling op)
  spelling_inj : ∀ op op', known op → known op' → spelling op = spelling op' → op = op'

theorem Unbroken.append {s t : List Char} (hs : Unbroken s) (ht : Unbroken t) : Unbroken (s ++ t) :=
  List.forall_mem_append.mpr ⟨hs, ht⟩

theorem unbroken_of_isAlpha {text : List Char} (h : ∀ c ∈ text, c.isAlpha) : Unbroken text := by
  intro c hc hm
  have hmark : c = '(' ∨ c = ')' ∨ c = ' ' := by simpa using hm
  rcases hmark with rfl | rfl | rfl <;> exact absurd (h _ hc) (by decide)

theorem Unbroken.append_inj {s s' t t' : List Char} (hs : Unbroken s) (hs' : Unbroken s')
    (ht : ∀ c ∈ t.head?, c = ' ') (ht' : ∀ c ∈ t'.head?, c = ' ') (h : s ++ t = s' ++ t') :
    s = s' ∧ t = t' := by
  have hspace {s : List Char} (hs : Unbroken s) : ' ' ∉ s := fun hm => hs ' ' hm (by decide)
  obtain ⟨htake, hdrop⟩ := span_ne_iff.mpr ⟨rfl, hspace hs, ht⟩
  obtain ⟨htake', hdrop'⟩ := span_ne_iff.mpr ⟨rfl, hspace hs', ht'⟩
  rw [h] at htake hdrop
  exact ⟨htake.symm.trans htake', hdrop.symm.trans hdrop'⟩

theorem nested_append_of_unbroken {s : List Char} (hs : Unbroken s) (t : List Char) (depth : Nat) :
    Nested '(' ')' depth (s ++ t) ↔ Nested '(' ')' depth t := by
  induction s with
  | nil => rfl
  | cons c s ih =>
    obtain ⟨hc, hs⟩ := List.forall_mem_cons.mp hs
    rw [List.cons_append, nested_other (by grind) (by grind), ih hs]

namespace OperatorSyntax

variable (L : OperatorSyntax)

def joined (p : BinaryOperator × Expr) : List Char :=
  ' ' :: L.spelling p.1 ++ ' ' :: L.source p.2

theorem source_eq_row (e : Expr) :
    L.source e = L.source e.first ++ e.rest.flatMap L.joined := by
  cases e with
  | binary left op right =>
    have hl := source_eq_row left
    have hr := source_eq_row right
    rw [L.source_binary, hl, hr]
    simp [Expr.first, Expr.rest, joined]
  | _ => exact (List.append_nil _).symm
termination_by structural e

variable {L}

theorem nested_source_append {e : Expr} (he : e.IsOperation L.known) (t : List Char)
    (depth : Nat) : Nested '(' ')' depth (L.source e ++ t) ↔ Nested '(' ')' depth t := by
  cases e with
  | identifier name =>
    have hunbroken := L.unbroken_sigil.append (unbroken_of_isAlpha he.2)
    rw [L.source_identifier, nested_append_of_unbroken hunbroken]
  | binary left op right =>
    obtain ⟨hl, hop, hr⟩ := he
    rw [L.source_binary, List.append_assoc, List.append_assoc, nested_source_append hl,
      List.cons_append, nested_other (by decide) (by decide),
      nested_append_of_unbroken (L.unbroken_spelling op hop), List.cons_append,
      nested_other (by decide) (by decide), nested_source_append hr]
  | grouped inner =>
    have he : inner.IsOperation L.known := he
    rw [L.source_grouped, List.append_assoc, List.cons_append, nested_opening (by decide),
      nested_source_append he, List.singleton_append, nested_closing (by decide)]
  | _ => exact he.elim
termination_by structural e

theorem unbroken_identifier {name : String} (h : (Expr.identifier name).IsOperation L.known) :
    Unbroken (L.source (.identifier name)) := by
  rw [L.source_identifier]
  exact L.unbroken_sigil.append (unbroken_of_isAlpha h.2)

theorem source_grouped_append (inner : Expr) (t : List Char) :
    L.source (.grouped inner) ++ t = '(' :: (L.source inner ++ ')' :: t) := by
  rw [L.source_grouped, List.cons_append, List.cons_append, List.append_assoc,
    List.singleton_append]

theorem identifier_append_ne {name : String} {inner : Expr}
    (h : (Expr.identifier name).IsOperation L.known) (s t : List Char) :
    L.source (.identifier name) ++ s ≠ L.source (.grouped inner) ++ t := by
  have hunbroken := unbroken_identifier h
  rw [source_grouped_append]
  cases htext : L.source (.identifier name) with
  | nil =>
    rw [L.source_identifier] at htext
    exact absurd (String.toList_eq_nil_iff.mp (List.append_eq_nil_iff.mp htext).2) h.1
  | cons c text =>
    intro hc
    obtain ⟨rfl, -⟩ := List.cons.inj hc
    rw [htext] at hunbroken
    exact hunbroken '(' List.mem_cons_self (by decide)

theorem grouped_append_inj {a b : Expr} (ha : a.IsOperation L.known) (hb : b.IsOperation L.known)
    {s t : List Char} (h : L.source (.grouped a) ++ s = L.source (.grouped b) ++ t) :
    L.source a = L.source b ∧ s = t := by
  have hinside {inner : Expr} (hi : inner.IsOperation L.known) (u : List Char) :
      enclosedBy '(' ')' 0 (L.source inner ++ ')' :: u) = some (L.source inner, u) := by
    have hnested := nested_source_append hi [] 0
    rw [List.append_nil, nested_nil, eq_self, iff_true] at hnested
    exact (enclosedBy_eq_some_iff (by decide)).mpr ⟨rfl, hnested⟩
  rw [source_grouped_append, source_grouped_append] at h
  have hread := congrArg (enclosedBy '(' ')' 0) (List.cons.inj h).2
  rw [hinside ha, hinside hb] at hread
  exact Prod.mk.inj (Option.some.inj hread)

/-- A part of a row, which is no chain itself. -/
structure IsOperand (L : OperatorSyntax) (rank : BinaryOperator → Nat) (x : Expr) : Prop where
  isOperation : x.IsOperation L.known
  groupedBy : x.GroupedBy rank
  rest_eq_nil : x.rest = []

variable {rank : BinaryOperator → Nat} {x y : Expr}

theorem IsOperand.cases (hx : L.IsOperand rank x) :
    (∃ name, x = .identifier name) ∨ ∃ inner, x = .grouped inner := by
  obtain ⟨hx, -, hrest⟩ := hx
  cases x with
  | identifier name => exact .inl ⟨name, rfl⟩
  | binary left op right => exact absurd hrest (by simp [Expr.rest])
  | grouped inner => exact .inr ⟨inner, rfl⟩
  | _ => exact hx.elim

theorem IsOperand.append_inj (hx : L.IsOperand rank x) (hy : L.IsOperand rank y)
    {s t : List Char} (hs : ∀ c ∈ s.head?, c = ' ') (ht : ∀ c ∈ t.head?, c = ' ')
    (h : L.source x ++ s = L.source y ++ t) : L.source x = L.source y ∧ s = t := by
  rcases hx.cases with ⟨name, rfl⟩ | ⟨a, rfl⟩ <;> rcases hy.cases with ⟨name', rfl⟩ | ⟨b, rfl⟩
  · have hux := unbroken_identifier hx.isOperation
    exact hux.append_inj (unbroken_identifier hy.isOperation) hs ht h
  · exact absurd h (identifier_append_ne hx.isOperation s t)
  · exact absurd h.symm (identifier_append_ne hy.isOperation t s)
  · have ha : a.IsOperation L.known := hx.isOperation
    have hb : b.IsOperation L.known := hy.isOperation
    obtain ⟨hab, rfl⟩ := grouped_append_inj ha hb h
    exact ⟨by rw [L.source_grouped, L.source_grouped, hab], rfl⟩

theorem head_space (t : List Char) : ∀ c ∈ (' ' :: t).head?, c = ' ' :=
  fun _ hc => (Option.some.inj hc).symm

theorem head_joined (r : List (BinaryOperator × Expr)) :
    ∀ c ∈ (r.flatMap L.joined).head?, c = ' ' := by
  cases r with
  | nil => exact fun c hc => nomatch hc
  | cons p r => exact head_space _

/-- An operand has a text that no other operand has. -/
def Told (L : OperatorSyntax) (rank : BinaryOperator → Nat) (x : Expr) : Prop :=
  ∀ y, L.IsOperand rank y → L.source x = L.source y → x = y

theorem row_inj {r r' : List (BinaryOperator × Expr)} (hx : L.IsOperand rank x)
    (hy : L.IsOperand rank y) (hr : ∀ p ∈ r, L.known p.1 ∧ L.IsOperand rank p.2)
    (hr' : ∀ p ∈ r', L.known p.1 ∧ L.IsOperand rank p.2)
    (htold : ∀ z ∈ x :: r.map Prod.snd, L.Told rank z)
    (h : L.source x ++ r.flatMap L.joined = L.source y ++ r'.flatMap L.joined) :
    x = y ∧ r = r' := by
  induction r generalizing x y r' with
  | nil =>
    obtain ⟨hxy, hrest⟩ := hx.append_inj hy (head_joined []) (head_joined r') h
    cases r' with
    | nil => exact ⟨htold x (by simp) y hy hxy, rfl⟩
    | cons p r' => exact nomatch hrest
  | cons p r ih =>
    obtain ⟨hxy, hrest⟩ := hx.append_inj hy (head_joined (p :: r)) (head_joined r') h
    cases r' with
    | nil => exact nomatch hrest
    | cons q r' =>
      obtain ⟨⟨hp, hpx⟩, hr⟩ := List.forall_mem_cons.mp hr
      obtain ⟨⟨hq, hqx⟩, hr'⟩ := List.forall_mem_cons.mp hr'
      obtain ⟨hx', htold⟩ := List.forall_mem_cons.mp htold
      have hspace (p : BinaryOperator × Expr) (r : List (BinaryOperator × Expr)) :
          (p :: r).flatMap L.joined =
            ' ' :: (L.spelling p.1 ++ ' ' :: (L.source p.2 ++ r.flatMap L.joined)) := by
        simp [joined]
      rw [hspace, hspace] at hrest
      obtain ⟨hop, hrest⟩ := (L.unbroken_spelling p.1 hp).append_inj (L.unbroken_spelling q.1 hq)
        (head_space _) (head_space _) (List.cons.inj hrest).2
      obtain ⟨hpq, rfl⟩ := ih hpx hqx hr hr' htold (List.cons.inj hrest).2
      exact ⟨hx' y hy hxy, by rw [Prod.ext (L.spelling_inj p.1 q.1 hp hq hop) hpq]⟩

theorem isOperation_row {e : Expr} (he : e.IsOperation L.known) :
    (∀ z ∈ e.operands, z.IsOperation L.known) ∧ ∀ p ∈ e.rest, L.known p.1 := by
  cases e with
  | binary left op right =>
    obtain ⟨hl, hop, hr⟩ := he
    obtain ⟨hoperandsl, hrestl⟩ := isOperation_row hl
    obtain ⟨hoperandsr, hrestr⟩ := isOperation_row hr
    rw [Expr.operands_binary, Expr.rest, List.forall_mem_append, List.forall_mem_append,
      List.forall_mem_cons]
    exact ⟨⟨hoperandsl, hoperandsr⟩, hrestl, hop, hrestr⟩
  | _ => exact ⟨List.forall_mem_singleton.mpr he, List.forall_mem_nil _⟩
termination_by structural e

theorem isOperand_of_mem_operands {e : Expr} (he : e.IsOperation L.known)
    (hg : e.GroupedBy rank) (hx : x ∈ e.operands) : L.IsOperand rank x :=
  ⟨(isOperation_row he).1 x hx, hg.of_mem_operands hx, Expr.rest_of_mem_operands hx⟩

theorem eq_of_told {a b : Expr} (ha : a.IsOperation L.known) (hb : b.IsOperation L.known)
    (hga : a.GroupedBy rank) (hgb : b.GroupedBy rank) (htold : ∀ x ∈ a.operands, L.Told rank x)
    (h : L.source a = L.source b) : a = b := by
  have hrow {e : Expr} (he : e.IsOperation L.known) (hg : e.GroupedBy rank) :
      L.IsOperand rank e.first ∧ ∀ p ∈ e.rest, L.known p.1 ∧ L.IsOperand rank p.2 := by
    refine ⟨isOperand_of_mem_operands he hg List.mem_cons_self, fun p hp => ?_⟩
    have hmem := List.mem_cons_of_mem e.first (List.mem_map_of_mem (f := Prod.snd) hp)
    exact ⟨(isOperation_row he).2 p hp, isOperand_of_mem_operands he hg hmem⟩
  obtain ⟨hfa, hra⟩ := hrow ha hga
  obtain ⟨hfb, hrb⟩ := hrow hb hgb
  rw [L.source_eq_row a, L.source_eq_row b] at h
  obtain ⟨hfirst, hrest⟩ := row_inj hfa hfb hra hrb htold h
  exact hga.eq_of_row hgb hfirst hrest

theorem told_identifier {name : String} (h : (Expr.identifier name).IsOperation L.known) :
    L.Told rank (.identifier name) := by
  intro y hy htext
  rcases hy.cases with ⟨name', rfl⟩ | ⟨inner, rfl⟩
  · rw [L.source_identifier, L.source_identifier] at htext
    rw [String.toList_inj.mp (List.append_cancel_left htext)]
  · exact absurd (congrArg (· ++ []) htext) (identifier_append_ne h [] [])

theorem told_grouped {inner : Expr} (h : inner.IsOperation L.known) (hg : inner.GroupedBy rank)
    (htold : ∀ x ∈ inner.operands, L.Told rank x) : L.Told rank (.grouped inner) := by
  intro y hy htext
  have htext' := congrArg (· ++ []) htext
  rcases hy.cases with ⟨name, rfl⟩ | ⟨inner', rfl⟩
  · exact absurd htext'.symm (identifier_append_ne hy.isOperation [] [])
  · have h' : inner'.IsOperation L.known := hy.isOperation
    obtain ⟨hinner, -⟩ := grouped_append_inj h h' htext'
    rw [eq_of_told h h' hg hy.groupedBy htold hinner]

theorem told_of_mem_operands {e : Expr} (he : e.IsOperation L.known) (hg : e.GroupedBy rank) :
    ∀ x ∈ e.operands, L.Told rank x := by
  cases e with
  | binary left op right =>
    obtain ⟨hl, -, hr⟩ := he
    obtain ⟨-, -, hgl, hgr⟩ := hg
    rw [Expr.operands_binary, List.forall_mem_append]
    exact ⟨told_of_mem_operands hl hgl, told_of_mem_operands hr hgr⟩
  | identifier name => exact List.forall_mem_singleton.mpr (told_identifier he)
  | grouped inner =>
    have h : inner.IsOperation L.known := he
    have hg : inner.GroupedBy rank := hg
    exact List.forall_mem_singleton.mpr (told_grouped h hg (told_of_mem_operands h hg))
  | _ => exact he.elim
termination_by structural e

/-- Operations of one grouping are told apart by their texts. -/
theorem source_inj {a b : Expr} (ha : a.IsOperation L.known) (hb : b.IsOperation L.known)
    (hga : a.GroupedBy rank) (hgb : b.GroupedBy rank) (h : L.source a = L.source b) : a = b :=
  eq_of_told ha hb hga hgb (told_of_mem_operands ha hga) h

theorem source_behind (x : Expr) (op : BinaryOperator) (e : Expr) :
    L.source (Expr.behind x op e) = L.source (.binary x op e) := by
  cases e with
  | binary left op' right =>
    rw [Expr.behind, L.source_binary, source_behind x op left]
    simp [L.source_binary]
  | _ => rfl
termination_by structural e

theorem source_leftward (e : Expr) : L.source e.leftward = L.source e := by
  cases e with
  | binary left op right =>
    rw [Expr.leftward, source_behind, L.source_binary, L.source_binary, source_leftward left,
      source_leftward right]
  | grouped inner =>
    rw [Expr.leftward, L.source_grouped, L.source_grouped, source_leftward inner]
  | _ => rfl
termination_by structural e

theorem isOperation_behind {known : BinaryOperator → Prop} {x e : Expr} {op : BinaryOperator}
    (hx : x.IsOperation known) (hop : known op) (he : e.IsOperation known) :
    (Expr.behind x op e).IsOperation known := by
  cases e with
  | binary left op' right =>
    obtain ⟨hl, hop', hr⟩ := he
    exact ⟨isOperation_behind hx hop hl, hop', hr⟩
  | _ => exact ⟨hx, hop, he⟩
termination_by structural e

theorem isOperation_leftward {known : BinaryOperator → Prop} {e : Expr}
    (he : e.IsOperation known) : e.leftward.IsOperation known := by
  cases e with
  | binary left op right =>
    obtain ⟨hl, hop, hr⟩ := he
    exact isOperation_behind (isOperation_leftward hl) hop (isOperation_leftward hr)
  | grouped inner => exact isOperation_leftward (e := inner) he
  | _ => exact he
termination_by structural e

/-- The text of an operation tells it up to the order in which its chains are joined, and no
more. -/
theorem source_eq_iff {a b : Expr} (ha : a.IsOperation L.known) (hb : b.IsOperation L.known) :
    L.source a = L.source b ↔ a.leftward = b.leftward := by
  constructor
  · intro h
    rw [← source_leftward a, ← source_leftward b] at h
    exact source_inj (isOperation_leftward ha) (isOperation_leftward hb) a.groupedBy_leftward
      b.groupedBy_leftward h
  · intro h
    rw [← source_leftward a, h, source_leftward b]

end OperatorSyntax

end Interlingua
