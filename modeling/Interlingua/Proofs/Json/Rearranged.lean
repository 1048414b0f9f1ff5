import Interlingua.Host.Reader
import Mathlib.Data.List.Basic

namespace Interlingua

namespace Host

open Json

/-- The data that are written as objects with declared members. -/
inductive Role where
  | node | ifClause | catchClause | parameter | paramBlock | extent
deriving DecidableEq

/-- What stands at a slot in the JSON form of a tree. -/
inductive Slot where
  | plain
  | one (role : Role)
  | each (role : Role)
deriving DecidableEq

abbrev Table := List (String × Slot)

/-- The members of a kind of nodes besides those of every node. -/
def Kind.declared : String → Table
  | "ScriptBlock" => [("param_block", .one .paramBlock), ("statements", .each .node)]
  | "StatementBlock" | "SubExpression" | "ArrayExpression" => [("statements", .each .node)]
  | "Pipeline" | "Command" | "ArrayLiteral" => [("elements", .each .node)]
  | "CommandExpression" => [("expression", .one .node)]
  | "CommandParameter" => [("parameter_name", .plain), ("argument", .one .node)]
  | "AssignmentStatement" | "BinaryExpression" =>
    [("left", .one .node), ("operator", .plain), ("right", .one .node)]
  | "UnaryExpression" => [("token_kind", .plain), ("child", .one .node)]
  | "ConstantExpression" | "StringConstantExpression" | "ExpandableStringExpression" =>
    [("value", .plain)]
  | "VariableExpression" => [("variable_path", .plain)]
  | "ConvertExpression" => [("type_name", .plain), ("child", .one .node)]
  | "TypeExpression" => [("type_name", .plain)]
  | "IfStatement" => [("clauses", .each .ifClause), ("else_clause", .one .node)]
  | "WhileStatement" | "DoWhileStatement" | "DoUntilStatement" =>
    [("condition", .one .node), ("body", .one .node)]
  | "ForStatement" =>
    [("initializer", .one .node), ("condition", .one .node), ("iterator", .one .node),
      ("body", .one .node)]
  | "ForEachStatement" =>
    [("variable", .one .node), ("condition", .one .node), ("body", .one .node)]
  | "ReturnStatement" | "ThrowStatement" | "ParenExpression" => [("pipeline", .one .node)]
  | "TryStatement" =>
    [("body", .one .node), ("catch_clauses", .each .catchClause), ("finally", .one .node)]
  | "FunctionDefinition" =>
    [("name", .plain), ("parameters", .each .parameter), ("body", .one .node)]
  | "Parameter" => [("name", .plain), ("static_type", .plain)]
  | "IndexExpression" => [("target", .one .node), ("index", .one .node)]
  | "InvokeMemberExpression" =>
    [("expression", .one .node), ("member", .plain), ("arguments", .each .node),
      ("static", .plain)]
  | "MemberExpression" => [("expression", .one .node), ("member", .plain), ("static", .plain)]
  | _ => []

/-- The declared members of a kind are those that are written for it. -/
theorem Kind.keys_declared (k : Kind) :
    (Kind.declared k.name).map Prod.fst = k.fieldsToJson.map Prod.fst := by
  cases k <;> rfl

/-- The members of the kind of node that the members name. -/
def typeNamed (members : Fields) : Table :=
  ((members.lookup "type").bind Kind.nameOfJson).elim [] Kind.declared

/-- The declared members of data that may also stand in an array, in the order in which they stand
there. -/
def Role.inOrder : Role → Table
  | node => []
  | ifClause => [("condition", .one .node), ("body", .one .node)]
  | catchClause => [("extent", .one .extent), ("catch_types", .plain), ("body", .one .node)]
  | parameter => [("extent", .one .extent), ("name", .plain), ("static_type", .plain)]
  | paramBlock => [("parameters", .each .parameter)]
  | extent => Extent.keys.map (·, .plain)

def Role.declared (members : Fields) (role : Role) : Table :=
  if role = node then ("type", .plain) :: ("extent", .one .extent) :: typeNamed members
  else role.inOrder

namespace Slot

def declared (members : Fields) : Slot → Table
  | one role => role.declared members
  | _ => []

def under (slot : Slot) (members : Fields) (key : String) : Slot :=
  ((slot.declared members).lookup key).getD plain

/-- What stands at a place of an array. -/
def item : Slot → Nat → Slot
  | each role, _ => one role
  | one role, i => (role.inOrder.map Prod.snd).getD i plain
  | plain, _ => plain

/-- A member that may be added: nothing declares it, and its numbers are ones that are read. -/
def Admits (slot : Slot) (members : Fields) (added : String × Json) : Prop :=
  match slot with
  | one role => added.1 ∉ (role.declared members).map Prod.fst ∧ added.2.inRange
  | _ => False

end Slot

mutual

/-- The members of objects are in another order at any depth, and objects that stand for data with
declared members have others besides them. -/
inductive Rearranged : Slot → Json → Json → Prop
  | null (slot : Slot) : Rearranged slot .null .null
  | bool (slot : Slot) (b : Bool) : Rearranged slot (.bool b) (.bool b)
  | natural (slot : Slot) (n : Nat) : Rearranged slot (.natural n) (.natural n)
  | number (slot : Slot) (literal : String) :
    Rearranged slot (.number literal) (.number literal)
  | string (slot : Slot) (s : String) : Rearranged slot (.string s) (.string s)
  | array {slot : Slot} {items items' : List Json}
    (h : ItemsRearranged slot.item items items') :
    Rearranged slot (.array items) (.array items')
  | object {slot : Slot} {members changed added members' : Fields}
    (h : MembersRearranged (slot.under members) members changed)
    (ha : ∀ m ∈ added, slot.Admits members m) (hp : members'.Perm (changed ++ added)) :
    Rearranged slot (.object members) (.object members')

inductive ItemsRearranged : (Nat → Slot) → List Json → List Json → Prop
  | nil (slots : Nat → Slot) : ItemsRearranged slots [] []
  | cons {slots : Nat → Slot} {v v' : Json} {vs vs' : List Json} (h : Rearranged (slots 0) v v')
    (hs : ItemsRearranged (slots <| · + 1) vs vs') : ItemsRearranged slots (v :: vs) (v' :: vs')

inductive MembersRearranged : (String → Slot) → Fields → Fields → Prop
  | nil (under : String → Slot) : MembersRearranged under [] []
  | cons {under : String → Slot} {key : String} {v v' : Json} {ms ms' : Fields}
    (h : Rearranged (under key) v v') (hs : MembersRearranged under ms ms') :
    MembersRearranged under ((key, v) :: ms) ((key, v') :: ms')

end

theorem lookup_eq_of_perm {ms ms' : Fields} (h : ms.Perm ms') {key : String}
    (hc : ms.countP (·.1 == key) ≤ 1) : ms.lookup key = ms'.lookup key := by
  induction h with
  | nil => rfl
  | cons m _ ih =>
    obtain ⟨k, v⟩ := m
    by_cases hk : key = k
    · simp [hk]
    · rw [List.countP_cons_of_neg (by simpa using Ne.symm hk)] at hc
      simp [List.lookup_cons, beq_false_of_ne hk, ih hc]
  | swap m n ms =>
    obtain ⟨k, v⟩ := m
    obtain ⟨l, w⟩ := n
    by_cases hk : key = k
    · have hl : key ≠ l := by
        rintro rfl
        simp [hk] at hc
      simp [List.lookup_cons, hk, beq_false_of_ne (hk ▸ hl)]
    · simp [List.lookup_cons, beq_false_of_ne hk]
  | trans h _ ih ih' => rw [ih hc, ih' (h.countP_eq _ ▸ hc)]

theorem depth_le_of_lookup {ms : Fields} {key : String} {v : Json}
    (h : ms.lookup key = some v) : v.depth ≤ depthOfMembers ms := by
  induction ms with
  | nil => cases h
  | cons m ms ih =>
    obtain ⟨k, w⟩ := m
    rw [List.lookup_cons] at h
    split at h
    · cases h
      exact Nat.le_max_left _ _
    · exact Nat.le_trans (ih h) (Nat.le_max_right _ _)

namespace MembersRearranged

variable {under : String → Slot} {ms ms' : Fields}

theorem keys (h : MembersRearranged under ms ms') : ms'.map Prod.fst = ms.map Prod.fst := by
  induction ms generalizing ms' with
  | nil =>
    cases h
    rfl
  | cons m ms ih =>
    cases h with
    | cons _ hs => rw [List.map_cons, List.map_cons, ih hs]

theorem countP (h : MembersRearranged under ms ms') (key : String) :
    ms'.countP (·.1 == key) = ms.countP (·.1 == key) := by
  have hcount (l : Fields) : l.countP (·.1 == key) = (l.map Prod.fst).countP (· == key) := by
    rw [List.countP_map]
    rfl
  rw [hcount, hcount, h.keys]

theorem lookup (h : MembersRearranged under ms ms') (key : String) :
    Option.Rel (Rearranged (under key)) (ms.lookup key) (ms'.lookup key) := by
  induction ms generalizing ms' with
  | nil =>
    cases h
    exact .none
  | cons m ms ih =>
    cases h with
    | @cons _ k v v' _ ms' h hs =>
      by_cases hk : key = k
      · subst hk
        simpa using Option.Rel.some h
      · simpa [List.lookup_cons, beq_false_of_ne hk] using ih hs

end MembersRearranged

theorem membersInRange_eq_all (ms : Fields) : membersInRange ms = ms.all memberInRange := by
  induction ms with
  | nil => rfl
  | cons m ms ih => rw [membersInRange, ih, List.all_cons]

theorem inRange_of_admitted {slot : Slot} {members : Fields} {m : String × Json}
    (h : slot.Admits members m) : memberInRange m = true := by
  obtain ⟨key, v⟩ := m
  cases slot with
  | one role => exact h.2
  | _ => exact h.elim

mutual

/-- Numbers that are too large are in both values or in neither. -/
theorem Rearranged.inRange_eq {slot : Slot} {v v' : Json} :
    Rearranged slot v v' → v'.inRange = v.inRange
  | .null _ | .bool _ _ | .natural _ _ | .number _ _ | .string _ _ => rfl
  | .array h => h.inRange_eq
  | .object h ha hp => by
    have hadded : List.all _ memberInRange = true :=
      List.all_eq_true.mpr fun m hm => inRange_of_admitted (ha m hm)
    rw [inRange, membersInRange_eq_all, hp.all_eq, List.all_append, hadded, Bool.and_true,
      ← membersInRange_eq_all, h.inRange_eq, inRange]

theorem ItemsRearranged.inRange_eq {slots : Nat → Slot} {vs vs' : List Json} :
    ItemsRearranged slots vs vs' → itemsInRange vs' = itemsInRange vs
  | .nil _ => rfl
  | .cons h hs => by rw [itemsInRange, itemsInRange, h.inRange_eq, hs.inRange_eq]

theorem MembersRearranged.inRange_eq {under : String → Slot} {ms ms' : Fields} :
    MembersRearranged under ms ms' → membersInRange ms' = membersInRange ms
  | .nil _ => rfl
  | .cons h hs => by
    rw [membersInRange, membersInRange, memberInRange, memberInRange, h.inRange_eq, hs.inRange_eq]

end

section

variable {α β : Type} {d d' : Nat}

/-- The readers give the same for rearranged values that nest fewer than `d` and `d'` levels. -/
def Agree (slot : Slot) (d d' : Nat) (f f' : Json → Option α) : Prop :=
  ∀ v v', Rearranged slot v v' → v.depth < d → v'.depth < d' → f v = f' v'

/-- Under each key of the table there are rearranged values within the depth, or none. -/
def ReadsAlike (table : Table) (d d' : Nat) (ms ms' : Fields) : Prop :=
  ∀ key slot, (key, slot) ∈ table →
    Option.Rel (fun v v' => Rearranged slot v v' ∧ v.depth < d ∧ v'.depth < d')
      (ms.lookup key) (ms'.lookup key)

theorem ItemsRearranged.mapM_eq {slots : Nat → Slot} {f f' : Json → Option α}
    (hf : ∀ i, Agree (slots i) d d' f f') {vs vs' : List Json} (h : ItemsRearranged slots vs vs')
    (hd : depthOfItems vs < d) (hd' : depthOfItems vs' < d') : vs.mapM f = vs'.mapM f' := by
  induction vs generalizing slots vs' with
  | nil =>
    cases h
    rfl
  | cons v vs ih =>
    cases h with
    | cons hv hvs =>
      obtain ⟨hv_lt, hvs_lt⟩ := Nat.max_lt.mp hd
      obtain ⟨hv_lt', hvs_lt'⟩ := Nat.max_lt.mp hd'
      rw [List.mapM_cons, List.mapM_cons, hf 0 _ _ hv hv_lt hv_lt',
        ih (fun i => hf (i + 1)) hvs hvs_lt hvs_lt']

theorem Agree.list? {slot : Slot} {f f' : Json → Option α}
    (h : ∀ i, Agree (slot.item i) d d' f f') :
    Agree slot d d' (Json.list? f) (Json.list? f') := by
  intro v v' hv hd hd'
  cases hv with
  | array hs => exact hs.mapM_eq h (Nat.lt_of_succ_lt hd) (Nat.lt_of_succ_lt hd')
  | _ => rfl

theorem Agree.optional? {slot : Slot} {f f' : Json → Option α} (h : Agree slot d d' f f') :
    Agree slot d d' (Json.optional? f) (Json.optional? f') := by
  intro v v' hv hd hd'
  have hf := h v v' hv hd hd'
  cases hv with
  | null => rfl
  | _ => exact congrArg (Option.map some) hf

namespace ReadsAlike

variable {table : Table} {ms ms' : Fields} {slot : Slot} {f f' : Json → Option α}

theorem required (h : ReadsAlike table d d' ms ms') (key : String) (hf : Agree slot d d' f f')
    (hk : (key, slot) ∈ table) : ms.required key f = ms'.required key f' := by
  have hrel := h key slot hk
  unfold Fields.required
  generalize ms.lookup key = o, ms'.lookup key = o' at hrel
  cases hrel with
  | none => rfl
  | some hv => exact hf _ _ hv.1 hv.2.1 hv.2.2

theorem defaulted (h : ReadsAlike table d d' ms ms') (key : String) (default : α)
    (hf : Agree slot d d' f f') (hk : (key, slot) ∈ table) :
    ms.defaulted key default f = ms'.defaulted key default f' := by
  have hrel := h key slot hk
  unfold Fields.defaulted
  generalize ms.lookup key = o, ms'.lookup key = o' at hrel
  cases hrel with
  | none => rfl
  | some hv => exact hf _ _ hv.1 hv.2.1 hv.2.2

theorem optional (h : ReadsAlike table d d' ms ms') (key : String) (hf : Agree slot d d' f f')
    (hk : (key, slot) ∈ table) : ms.optional key f = ms'.optional key f' :=
  h.defaulted key none hf.optional? hk

end ReadsAlike

end

theorem Kind.nodup_declared (type : String) :
    ("type" :: "extent" :: (Kind.declared type).map Prod.fst).Nodup := by
  unfold declared
  split <;> decide

theorem Role.nodup_inOrder (role : Role) : (role.inOrder.map Prod.fst).Nodup := by
  cases role <;> decide

theorem Role.nodup_declared (members : Fields) (role : Role) :
    ((role.declared members).map Prod.fst).Nodup := by
  unfold declared
  split
  · unfold typeNamed
    cases (members.lookup "type").bind Kind.nameOfJson with
    | none => decide
    | some type => exact Kind.nodup_declared type
  · exact role.nodup_inOrder

theorem ne_of_mem_of_nodup {k key : String} {p slot : Slot} {table : Table}
    (hn : (((k, p) :: table).map Prod.fst).Nodup) (h : (key, slot) ∈ table) : key ≠ k := by
  rintro rfl
  exact (List.nodup_cons.mp hn).1 (List.mem_map.mpr ⟨_, h, rfl⟩)

theorem Slot.under_of_mem {role : Role} {members : Fields} {key : String} {slot : Slot}
    (h : (key, slot) ∈ role.declared members) :
    (Slot.one role).under members key = slot := by
  have hn := role.nodup_declared members
  simp only [under, declared]
  generalize role.declared members = table at h hn
  induction table with
  | nil => cases h
  | cons entry table ih =>
    obtain ⟨k, p⟩ := entry
    obtain heq | ht := List.mem_cons.mp h
    · cases heq
      simp
    · have hne := ne_of_mem_of_nodup hn ht
      simpa [List.lookup_cons, beq_false_of_ne hne] using ih ht (List.nodup_cons.mp hn).2

section

variable {role : Role} {members changed added members' : Fields} {key : String}

theorem ne_of_admitted (ha : ∀ m ∈ added, (Slot.one role).Admits members m)
    (hk : key ∈ (role.declared members).map Prod.fst) : ∀ m ∈ added, key ≠ m.1 := by
  rintro m hm rfl
  exact (ha m hm).1 hk

theorem countP_of_rearranged (h : MembersRearranged ((Slot.one role).under members) members changed)
    (ha : ∀ m ∈ added, (Slot.one role).Admits members m) (hp : members'.Perm (changed ++ added))
    (hk : key ∈ (role.declared members).map Prod.fst) :
    members'.countP (·.1 == key) = members.countP (·.1 == key) := by
  have hnone : added.countP (·.1 == key) = 0 :=
    List.countP_eq_zero.mpr fun m hm => by simpa using (ne_of_admitted ha hk m hm).symm
  rw [hp.countP_eq, List.countP_append, h.countP, hnone, Nat.add_zero]

theorem lookup_of_rearranged (h : MembersRearranged ((Slot.one role).under members) members changed)
    (ha : ∀ m ∈ added, (Slot.one role).Admits members m) (hp : members'.Perm (changed ++ added))
    (hk : key ∈ (role.declared members).map Prod.fst) (hone : members.countP (·.1 == key) ≤ 1) :
    Option.Rel (Rearranged ((Slot.one role).under members key)) (members.lookup key)
      (members'.lookup key) := by
  have hnone : added.lookup key = none := by
    simpa [List.lookup_eq_none_iff] using ne_of_admitted ha hk
  rw [lookup_eq_of_perm hp (by rwa [countP_of_rearranged h ha hp hk]), List.lookup_append, hnone,
    Option.or_none]
  exact h.lookup key

end

section

variable {role : Role} {table : Table} {v v' : Json} {d d' : Nat}

/-- Declared members are found alike on both sides, whatever else was added. -/
theorem Rearranged.members (h : Rearranged (.one role) v v') (hd : v.depth ≤ d)
    (hd' : v'.depth ≤ d') (ht : ∀ members, v = .object members → table ⊆ role.declared members) :
    Option.Rel (ReadsAlike table d d') (v.members? (table.map Prod.fst))
      (v'.members? (table.map Prod.fst)) := by
  cases h with
  | @object _ members changed added members' h ha hp =>
    have ht := ht members rfl
    have hkey {key : String} (hk : key ∈ table.map Prod.fst) :
        key ∈ (role.declared members).map Prod.fst := List.map_subset _ ht hk
    have hall : (table.map Prod.fst).all (fun key => members'.countP (·.1 == key) ≤ 1) =
        (table.map Prod.fst).all fun key => members.countP (·.1 == key) ≤ 1 := by
      rw [Bool.eq_iff_iff, List.all_eq_true, List.all_eq_true]
      refine forall₂_congr fun key hk => ?_
      rw [countP_of_rearranged h ha hp (hkey hk)]
    simp only [members?, hall]
    split
    · next hle =>
      refine .some fun key slot hk => ?_
      have hmem : key ∈ table.map Prod.fst := List.mem_map_of_mem hk
      have hrel := lookup_of_rearranged h ha hp (hkey hmem)
        (by simpa using List.all_eq_true.mp hle key hmem)
      rw [Slot.under_of_mem (ht hk)] at hrel
      have hlt (v : Json) (hv : members.lookup key = some v) : v.depth < d :=
        Nat.lt_of_le_of_lt (depth_le_of_lookup hv) hd
      have hlt' (v : Json) (hv : members'.lookup key = some v) : v.depth < d' :=
        Nat.lt_of_le_of_lt (depth_le_of_lookup hv) hd'
      generalize members.lookup key = o, members'.lookup key = o' at hrel hlt hlt'
      cases hrel with
      | none => exact .none
      | some hr => exact .some ⟨hr, hlt _ rfl, hlt' _ rfl⟩
    · exact .none
  | _ => exact .none

theorem ItemsRearranged.length_eq {slots : Nat → Slot} {vs vs' : List Json} :
    ItemsRearranged slots vs vs' → vs'.length = vs.length
  | .nil _ => rfl
  | .cons _ hs => congrArg (· + 1) hs.length_eq

/-- The places of an array stand for the members that are declared in this order. -/
theorem ItemsRearranged.readsAlike {slots : Nat → Slot} {vs vs' : List Json}
    (h : ItemsRearranged slots vs vs')
    (hslots : ∀ i, slots i = (table.map Prod.snd).getD i .plain)
    (hn : (table.map Prod.fst).Nodup) (hd : depthOfItems vs < d) (hd' : depthOfItems vs' < d') :
    ReadsAlike table d d' ((table.map Prod.fst).zip vs) ((table.map Prod.fst).zip vs') := by
  induction table generalizing slots vs vs' with
  | nil => exact fun _ _ hk => nomatch hk
  | cons entry table ih =>
    obtain ⟨k, p⟩ := entry
    intro key slot hk
    cases h with
    | nil => exact .none
    | cons hv hvs =>
      obtain ⟨hv_lt, hvs_lt⟩ := Nat.max_lt.mp hd
      obtain ⟨hv_lt', hvs_lt'⟩ := Nat.max_lt.mp hd'
      obtain heq | hk := List.mem_cons.mp hk
      · cases heq
        rw [hslots 0] at hv
        simpa using Option.Rel.some ⟨hv, hv_lt, hv_lt'⟩
      · have hne := ne_of_mem_of_nodup hn hk
        have hrest := ih hvs (fun i => hslots (i + 1)) (List.nodup_cons.mp hn).2 hvs_lt hvs_lt'
        simpa [List.lookup_cons, beq_false_of_ne hne] using hrest key slot hk

theorem Rearranged.fields (h : Rearranged (.one role) v v') (hd : v.depth ≤ d)
    (hd' : v'.depth ≤ d') (hrole : role ≠ .node) :
    Option.Rel (ReadsAlike role.inOrder d d') (v.fields? (role.inOrder.map Prod.fst))
      (v'.fields? (role.inOrder.map Prod.fst)) := by
  have hmembers : Option.Rel (ReadsAlike role.inOrder d d')
      (v.members? (role.inOrder.map Prod.fst)) (v'.members? (role.inOrder.map Prod.fst)) := by
    refine h.members hd hd' fun members _ => ?_
    rw [Role.declared, if_neg hrole]
    exact List.Subset.refl role.inOrder
  cases h with
  | array hs =>
    simp only [fields?, hs.length_eq]
    split
    · exact .some (hs.readsAlike (fun _ => rfl) role.nodup_inOrder hd hd')
    · exact .none
  | _ => exact hmembers

end

end Host

end Interlingua
