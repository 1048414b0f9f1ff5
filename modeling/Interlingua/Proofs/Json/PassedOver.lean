import Mathlib.Data.List.Forall2
import Interlingua.Host.Reader
import Interlingua.Proofs.Json.Text

namespace Interlingua

namespace Json

variable {α β : Type} {R : α → β → Prop} {item : Reader α} {item' : Reader β}

/-- What `item` takes is taken by `item'` as well, and what they read is related. -/
def Follows (R : α → β → Prop) (item : Reader α) (item' : Reader β) : Prop :=
  ∀ cs x rest, item cs = some (x, rest) → ∃ y, R x y ∧ item' cs = some (y, rest)

theorem Follows.itemsUntil (h : Follows R item item') (close : Char) (fuel : Nat) :
    Follows (List.Forall₂ R) (itemsUntil close item fuel) (itemsUntil close item' fuel) := by
  induction fuel with
  | zero =>
    intro cs xs rest hread
    cases hread
  | succ fuel ih =>
    intro cs xs rest hread
    obtain ⟨⟨x, behind⟩, hx, hrest⟩ := Option.bind_eq_some_iff.mp hread
    obtain ⟨y, hxy, hy⟩ := h _ _ _ hx
    simp only [Json.itemsUntil, hy, Option.bind_eq_bind, Option.bind_some]
    dsimp only at hrest
    split at hrest
    · next cs hcs =>
      obtain ⟨⟨xs, behind⟩, hxs, hdone⟩ := Option.bind_eq_some_iff.mp hrest
      obtain ⟨ys, hxys, hys⟩ := ih _ _ _ hxs
      cases hdone
      exact ⟨y :: ys, .cons hxy hxys, by simp [hys]⟩
    · next c cs hc hcs =>
      split at hrest
      · next hclose =>
        cases hrest
        exact ⟨[y], .cons hxy .nil, by simp [hclose]⟩
      · cases hrest
    · cases hrest

theorem Follows.sequence (h : Follows R item item') (close : Char) :
    Follows (List.Forall₂ R) (sequence close item) (sequence close item') := by
  intro cs xs rest hread
  unfold Json.sequence at hread ⊢
  split at hread
  · next c behind hcs =>
    split at hread
    · next hc =>
      cases hread
      exact ⟨[], .nil, if_pos hc⟩
    · next hc =>
      obtain ⟨ys, hxys, hys⟩ := h.itemsUntil close _ _ _ _ hread
      exact ⟨ys, hxys, by simp only [hc, if_false, hys]⟩
  · cases hread

/-- The looser reader is as far in an escape as the stricter one, but it knows of no halves. -/
inductive Escape.Loosens : Escape → Escape → Prop
  | outside : Loosens outside outside
  | begun : Loosens begun begun
  | digits (high high' : Option Nat) (count value value' : Nat) :
    Loosens (digits high count value) (digits high' count value')
  | high (value : Nat) : Loosens (high value) outside
  | highBegun (value : Nat) : Loosens (highBegun value) begun

theorem stringEnd_anyUnit {e e' : Escape} (he : e.Loosens e') {cs done rest : List Char}
    {s : String} (h : stringEnd codeUnit e done cs = some (s, rest)) (done' : List Char) :
    ∃ s', stringEnd anyUnit e' done' cs = some (s', rest) := by
  induction cs generalizing e e' done done' with
  | nil => simp [stringEnd] at h
  | cons c cs ih =>
    cases he with
    | outside =>
      simp only [stringEnd] at h ⊢
      split at h
      · next hq =>
        cases h
        simp [hq]
      · next hq =>
        split at h
        · next hb =>
          simp only [hb, if_true]
          exact ih .begun h _
        · next hb =>
          split at h
          · cases h
          · next hc =>
            simp only [hq, hb, hc, if_false]
            exact ih .outside h _
    | begun =>
      simp only [stringEnd] at h ⊢
      split at h
      · next hu =>
        simp only [hu, if_true]
        exact ih (.digits ..) h _
      · next hu =>
        simp only [hu, if_false]
        cases hc : unescape c with
        | none => simp [hc] at h
        | some d =>
          simp only [hc] at h ⊢
          exact ih .outside h _
    | digits high high' count value value' =>
      simp only [stringEnd] at h ⊢
      cases hd : hexValue c with
      | none => simp [hd] at h
      | some d =>
        simp only [hd] at h ⊢
        split at h
        · next hcount =>
          simp only [hcount, if_true]
          exact ih (.digits ..) h _
        · next hcount =>
          simp only [hcount, if_false, anyUnit]
          split at h
          · exact ih .outside h _
          · exact ih (.high _) h _
          · cases h
    | high =>
      simp only [stringEnd] at h ⊢
      split at h
      · next hb =>
        subst hb
        exact ih (.highBegun _) h _
      · cases h
    | highBegun =>
      simp only [stringEnd] at h ⊢
      split at h
      · next hu =>
        simp only [hu, if_true]
        exact ih (.digits ..) h _
      · cases h

def Reads (item : Reader α) (item' : Reader β) : Prop := Follows (fun _ _ => True) item item'

theorem Reads.quoted : Reads (quoted codeUnit) (quoted anyUnit) := by
  intro cs s rest h
  unfold Json.quoted at h ⊢
  split at h
  · obtain ⟨s', hs'⟩ := stringEnd_anyUnit .outside h []
    exact ⟨s', trivial, hs'⟩
  · cases h

theorem follows_member {units units' : Units} {R : String × Json → String × Json → Prop}
    {under under' : String → Reader Json}
    (hq : ∀ cs key rest, quoted units cs = some (key, rest) →
      ∃ key', quoted units' cs = some (key', rest) ∧
        Follows (fun v w => R (key, v) (key', w)) (under key) (under' key')) :
    Follows R (member units under) (member units' under') := by
  rintro cs ⟨key, v⟩ rest h
  obtain ⟨⟨key', behind⟩, hkey, hrest⟩ := Option.bind_eq_some_iff.mp h
  obtain ⟨k, hk, hf⟩ := hq _ _ _ hkey
  simp only [member, hk, Option.bind_eq_bind, Option.bind_some]
  dsimp only at hrest
  split at hrest
  · next cs hcs =>
    obtain ⟨⟨w, behind⟩, hw, hdone⟩ := Option.bind_eq_some_iff.mp hrest
    obtain ⟨x, hx, hread⟩ := hf _ _ _ hw
    cases hdone
    exact ⟨(k, x), hx, by simp [hread]⟩
  · cases hrest

theorem scalar_anyUnit : Reads (scalar codeUnit) (scalar anyUnit) := by
  intro cs v rest h
  unfold scalar at h ⊢
  split at h
  · obtain ⟨⟨s, behind⟩, hs, hdone⟩ := Option.map_eq_some_iff.mp h
    cases hdone
    obtain ⟨s', hs'⟩ := stringEnd_anyUnit .outside hs []
    exact ⟨string s', trivial, by simp [hs']⟩
  all_goals exact ⟨v, trivial, h⟩

theorem value_anyUnit {d d' : Nat} (h : d ≤ d') : Reads (value codeUnit d) (value anyUnit d') := by
  induction d generalizing d' with
  | zero =>
    intro cs v rest h
    have hs : scalar codeUnit cs = some (v, rest) := h
    obtain ⟨w, -, hw⟩ := scalar_anyUnit cs v rest hs
    refine ⟨w, trivial, ?_⟩
    cases cs with
    | nil => cases hw
    | cons c cs =>
      have hc : c ≠ '[' ∧ c ≠ '{' := by
        constructor
        all_goals
          rintro rfl
          cases hw
      rw [value_eq_scalar hc, hw]
  | succ d ih =>
    obtain ⟨d', rfl⟩ : ∃ n, d' = n + 1 := ⟨d' - 1, by omega⟩
    have hvalue : Reads (value codeUnit d) (value anyUnit d') := ih (by omega)
    intro cs v rest h
    unfold value at h ⊢
    split at h
    · next cs =>
      obtain ⟨⟨vs, behind⟩, hvs, hdone⟩ := Option.map_eq_some_iff.mp h
      obtain ⟨ws, -, hws⟩ := hvalue.sequence ']' _ _ _ hvs
      cases hdone
      exact ⟨array ws, trivial, by simp [hws]⟩
    · next cs =>
      obtain ⟨⟨ms, behind⟩, hms, hdone⟩ := Option.map_eq_some_iff.mp h
      have hmember : Reads (member codeUnit fun _ => value codeUnit d)
          (member anyUnit fun _ => value anyUnit d') :=
        follows_member fun cs key rest hkey => by
          obtain ⟨key', -, hkey'⟩ := Reads.quoted _ _ _ hkey
          exact ⟨key', hkey', hvalue⟩
      obtain ⟨ns, -, hns⟩ := hmember.sequence '}' _ _ _ hms
      cases hdone
      exact ⟨object ns, trivial, by simp [hns]⟩
    · obtain ⟨w, -, hw⟩ := scalar_anyUnit _ _ _ h
      exact ⟨w, trivial, hw⟩

theorem follows_passedOver (d : Nat) :
    Follows (fun _ w => null = w) (value codeUnit d) (passedOver d) := by
  intro cs v rest h
  obtain ⟨w, -, hw⟩ := value_anyUnit (Nat.le_max_left d cs.length) cs v rest h
  exact ⟨null, rfl, by simp [passedOver, hw]⟩

/-- Each member with another value, which may depend on its key. -/
def mapMembers (f : String → Json → Json) : Json → Json
  | object members => object (members.map fun m => (m.1, f m.1 m.2))
  | v => v

theorem mapMembers_of_scalar {units : Units} {cs rest : List Char} {v : Json}
    (h : scalar units cs = some (v, rest)) (f : String → Json → Json) : mapMembers f v = v := by
  have hunsigned {sign cs : List Char} (h : unsigned sign cs = some (v, rest)) :
      mapMembers f v = v := by
    simp only [unsigned, Option.bind_eq_bind, Option.bind_eq_some_iff] at h
    obtain ⟨_, -, _, -, _, -, h⟩ := h
    split at h <;> (cases h; rfl)
  unfold scalar at h
  split at h
  · obtain ⟨_, -, hdone⟩ := Option.map_eq_some_iff.mp h
    cases hdone
    rfl
  · cases h
    rfl
  · cases h
    rfl
  · cases h
    rfl
  · exact hunsigned h
  · exact hunsigned h

theorem follows_objectOf {d : Nat} {f : String → Json → Json} {under : String → Reader Json}
    (h : ∀ key, Follows (fun v w => f key v = w) (value codeUnit d) (under key)) :
    Follows (fun v w => mapMembers f v = w) (value codeUnit (d + 1)) (objectOf (d + 1) under) := by
  intro cs v rest hread
  have hmember : Follows (fun m n => (m.1, f m.1 m.2) = n)
      (member codeUnit fun _ => value codeUnit d) (member codeUnit under) :=
    follows_member fun cs key rest hkey => ⟨key, hkey, by simpa using h key⟩
  unfold objectOf
  split
  · next cs =>
    obtain ⟨⟨ms, behind⟩, hms, hdone⟩ := Option.map_eq_some_iff.mp hread
    obtain ⟨ns, hall, hns⟩ := hmember.sequence '}' _ _ _ hms
    have hmap : ms.map (fun m => (m.1, f m.1 m.2)) = ns := by
      rwa [← List.forall₂_map_left_iff, List.forall₂_eq_eq_eq] at hall
    cases hdone
    exact ⟨_, rfl, by simp [mapMembers, hmap, hns]⟩
  · next hcs =>
    refine ⟨v, ?_, hread⟩
    unfold value at hread
    split at hread
    · obtain ⟨_, -, hdone⟩ := Option.map_eq_some_iff.mp hread
      cases hdone
      rfl
    · next cs => exact absurd rfl (hcs cs)
    · exact mapMembers_of_scalar hread f

theorem Follows.whole? {R : Json → Json → Prop} {item item' : Reader Json}
    (h : Follows R item item') {text : String} {v : Json} (hv : whole? item text = some v) :
    ∃ w, R v w ∧ Json.whole? item' text = some w := by
  unfold Json.whole? at hv ⊢
  split at hv
  · next x rest hread =>
    obtain ⟨y, hxy, hy⟩ := h _ _ _ hread
    split at hv
    · next hend =>
      cases hv
      exact ⟨y, hxy, by simp only [hy, hend, if_true]⟩
    · cases hv
  · cases hv

end Json

namespace Host

open Json

def heededPosition : Json → Json :=
  mapMembers fun key v => if key ∈ Extent.keys then v else .null

/-- The node without what its position does not declare. -/
def heeded : Json → Json :=
  mapMembers fun key v => if key = "extent" then heededPosition v else v

theorem follows_value (d : Nat) :
    Follows (fun v w => heeded v = w) (Json.value codeUnit (d + 2)) (Ast.value (d + 2)) := by
  refine follows_objectOf fun key => ?_
  by_cases hkey : key = "extent"
  · simp only [hkey, if_true]
    refine follows_objectOf fun key => ?_
    by_cases hmem : key ∈ Extent.keys
    · simp only [hmem, if_true]
      exact fun cs v rest h => ⟨v, rfl, h⟩
    · simp only [hmem, if_false]
      exact follows_passedOver d
  · simp only [hkey, if_false]
    exact fun cs v rest h => ⟨v, rfl, h⟩

theorem Ast.whole?_value {text : String} {v : Json} (h : parse nestingLimit text = some v) :
    whole? (Ast.value nestingLimit) text = some (heeded v) := by
  obtain ⟨w, rfl, hw⟩ := (follows_value 125).whole? h
  exact hw

theorem Ast.ofText_eq {text : String} {v : Json} (hv : parse nestingLimit text = some v) :
    Ast.ofText text =
      if (Host.heeded v).inRange then orMisshapen ofJson (Host.heeded v)
      else .error .malformed := by
  simp only [ofText, whole?_value hv]

/-- A number that no double can hold is passed over in a position that does not declare it. -/
example :
    (Ast.ofText "\x7b\"type\":19,\"extent\":\x7b\"note\":1e999\x7d\x7d").toOption.map
      (·.kind.name) = some "BreakStatement" := by
  decide +kernel

end Host

end Interlingua
