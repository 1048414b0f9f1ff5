import Interlingua.Proofs.Json.PassedOver
import Interlingua.Proofs.Json.Rearranged

namespace Interlingua.Host

open Json

variable {d d' : Nat} {ast ast' : Json → Option Ast}

theorem lookup_mapMembers (f : String → Json → Json) (members : Fields) (key : String) :
    (members.map fun m => (m.1, f m.1 m.2)).lookup key = (members.lookup key).map (f key) := by
  induction members with
  | nil => rfl
  | cons m members ih =>
    obtain ⟨k, v⟩ := m
    by_cases hk : key = k
    · simp [hk]
    · simp [List.lookup_cons, beq_false_of_ne hk, ih]

theorem inRange_mapMembers {f : String → Json → Json}
    (hf : ∀ key v, v.inRange = true → (f key v).inRange = true) {v : Json}
    (h : v.inRange = true) : (mapMembers f v).inRange = true := by
  cases v with
  | object members =>
    rw [inRange, membersInRange_eq_all, List.all_eq_true] at h
    rw [mapMembers, inRange, membersInRange_eq_all, List.all_eq_true]
    intro m hm
    obtain ⟨⟨key, v⟩, hv, rfl⟩ := List.mem_map.mp hm
    exact hf key v (h _ hv)
  | _ => exact h

theorem MembersRearranged.map {under : String → Slot} {f : String → Json → Json}
    (hf : ∀ key v v', Rearranged (under key) v v' → Rearranged (under key) (f key v) (f key v'))
    {ms ms' : Fields} (h : MembersRearranged under ms ms') :
    MembersRearranged under (ms.map fun m => (m.1, f m.1 m.2))
      (ms'.map fun m => (m.1, f m.1 m.2)) := by
  induction ms generalizing ms' with
  | nil =>
    cases h
    exact .nil under
  | cons m ms ih =>
    cases h with
    | cons hv hs => exact .cons (hf _ _ _ hv) (ih hs)

theorem Rearranged.mapMembers {role : Role} {f : String → Json → Json} {v v' : Json}
    (h : Rearranged (.one role) v v')
    (hd : ∀ members : Fields,
      role.declared (members.map fun m => (m.1, f m.1 m.2)) = role.declared members)
    (hf : ∀ members key w w', Rearranged ((Slot.one role).under members key) w w' →
      Rearranged ((Slot.one role).under members key) (f key w) (f key w'))
    (hr : ∀ key w, w.inRange = true → (f key w).inRange = true) :
    Rearranged (.one role) (Json.mapMembers f v) (Json.mapMembers f v') := by
  cases h with
  | @object _ members changed added members' h ha hp =>
    have hunder : (Slot.one role).under (members.map fun m => (m.1, f m.1 m.2)) =
        (Slot.one role).under members := by
      funext key
      rw [Slot.under, Slot.under, Slot.declared, Slot.declared, hd]
    have hadded : ∀ m ∈ added.map fun m => (m.1, f m.1 m.2),
        (Slot.one role).Admits (members.map fun m => (m.1, f m.1 m.2)) m := by
      intro m hm
      obtain ⟨n, hn, rfl⟩ := List.mem_map.mp hm
      obtain ⟨hnew, hrange⟩ := ha n hn
      exact ⟨by rwa [hd], hr n.1 n.2 hrange⟩
    refine .object (hunder ▸ h.map (hf members)) hadded ?_
    rw [← List.map_append]
    exact hp.map _
  | array hs => exact .array hs
  | null => exact .null _
  | bool => exact .bool _ _
  | natural => exact .natural _ _
  | number => exact .number _ _
  | string => exact .string _ _

theorem Rearranged.heededPosition {v v' : Json} (h : Rearranged (.one .extent) v v') :
    Rearranged (.one .extent) (heededPosition v) (heededPosition v') := by
  refine h.mapMembers (fun _ => rfl) (fun members key w w' hw => ?_) fun key w hw => ?_
  · split
    · exact hw
    · exact .null _
  · split
    · exact hw
    · rfl

theorem Rearranged.heeded {v v' : Json} (h : Rearranged (.one .node) v v') :
    Rearranged (.one .node) (heeded v) (heeded v') := by
  refine h.mapMembers (fun members => ?_) (fun members key w w' hw => ?_) fun key w hw => ?_
  · have htype := lookup_mapMembers
      (fun key v => if key = "extent" then Host.heededPosition v else v) members "type"
    simp [Role.declared, typeNamed, htype]
  · split
    · next hkey =>
      subst hkey
      rw [@Slot.under_of_mem .node members _ (.one .extent) (by simp [Role.declared])] at hw ⊢
      exact hw.heededPosition
    · exact hw
  · split
    · refine inRange_mapMembers (fun key w hw => ?_) hw
      split
      · exact hw
      · rfl
    · exact hw

end Interlingua.Host
