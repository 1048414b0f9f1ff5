import Mathlib.Data.List.Count
import Mathlib.Data.List.Nodup
import Interlingua.Proofs.Objects.Bound

namespace Interlingua

def Argument.foldedName (a : Argument) : Option (List Char) := a.name.map Text.fold

/-- No two of the arguments have one name. -/
def Argument.DistinctNames (arguments : List Argument) : Prop :=
  (arguments.filterMap foldedName).Nodup

instance (arguments : List Argument) : Decidable (Argument.DistinctNames arguments) :=
  inferInstanceAs (Decidable (List.Nodup _))

namespace Argument

variable {arguments : List Argument} {a : Argument} {name : String}

theorem isNamed_iff : a.isNamed name ↔ a.foldedName = some (Text.fold name) := by
  simp [isNamed, foldedName, Option.any_eq_true]

theorem filter_isNamed (h : DistinctNames arguments) (name : String) :
    arguments.filter (·.isNamed name) = (argumentNamed arguments name).toList := by
  have hone (as : List Argument) (hlength : as.length ≤ 1) : as = as.head?.toList := by
    match as with
    | [] | [_] => rfl
  have hcount : (arguments.filter (·.isNamed name)).length =
      (arguments.filterMap foldedName).count (Text.fold name) := by
    rw [← List.countP_eq_length_filter, List.count, List.countP_filterMap]
    refine List.countP_congr fun a _ => ?_
    rw [isNamed_iff]
    cases a.foldedName <;> simp
  have hfilter := hone _ (hcount.symm ▸ List.nodup_iff_count_le_one.mp h (Text.fold name))
  rwa [List.head?_filter] at hfilter

end Argument

namespace Takes

variable {arguments unnamed left : List Argument} {name : String} {taken : Option Argument}

theorem filter_append (h : Takes arguments name unnamed taken left)
    (hvalues : ∀ a ∈ arguments, a.value.isSome) (hnames : Argument.DistinctNames arguments) :
    arguments.filter (·.isNamed name) ++ unnamed = taken.toList ++ left := by
  have hmissing (hnone : ∀ b, ¬ GivenByName arguments name b) :
      argumentNamed arguments name = none := by
    refine Option.eq_none_iff_forall_not_mem.mpr fun b hb => hnone b ?_
    exact givenByName_iff.mpr ⟨hb, hvalues b (List.mem_of_find?_eq_some hb)⟩
  rw [Argument.filter_isNamed hnames]
  cases h with
  | byName hgiven => rw [(givenByName_iff.mp hgiven).1]
  | byPlace hnone =>
    rw [hmissing hnone]
    rfl
  | nothing hnone => rw [hmissing hnone]

theorem names_sublist (h : Takes arguments name unnamed taken left)
    (hunnamed : ∀ b ∈ unnamed, b.name = none) :
    (taken.toList.filterMap Argument.foldedName).Sublist [Text.fold name] := by
  cases h with
  | byName hgiven =>
    have hname := Argument.isNamed_iff.mp hgiven.1.1
    rw [Option.toList_some, List.filterMap_cons_some hname]
    exact List.Sublist.refl _
  | @byPlace a _ _ =>
    have hname : a.foldedName = none := by
      rw [Argument.foldedName, hunnamed a List.mem_cons_self, Option.map_none]
    rw [Option.toList_some, List.filterMap_cons_none hname]
    exact List.nil_sublist _
  | nothing _ => exact List.nil_sublist _

theorem isSome_of_taken (h : Takes arguments name unnamed taken left)
    (hunnamed : ∀ b ∈ unnamed, b.value.isSome) : ∀ a ∈ taken.toList, a.value.isSome := by
  cases h with
  | byName hgiven => exact List.forall_mem_singleton.mpr hgiven.2
  | byPlace _ => exact List.forall_mem_singleton.mpr (hunnamed _ List.mem_cons_self)
  | nothing _ => nofun

end Takes

namespace Host

variable {arguments left : List Argument} {typed listed : Option Argument} {a : Argument}

theorem name_of_mem_withoutName (h : a ∈ withoutName arguments) : a.name = none :=
  Option.isNone_iff_eq_none.mp (Bool.and_eq_true_iff.mp (List.mem_filter.mp h).2).1

theorem not_isNamed_both (h : a.isNamed "TypeName") : ¬ a.isNamed "ArgumentList" := by
  rw [Argument.isNamed_iff] at h ⊢
  rw [h]
  decide

theorem perm_of_names (hvalues : ∀ a ∈ arguments, a.value.isSome)
    (hnames : ∀ a ∈ arguments, isObjectParameter a) :
    arguments.Perm (arguments.filter (·.isNamed "TypeName") ++
      (arguments.filter (·.isNamed "ArgumentList") ++ withoutName arguments)) := by
  have hrest := List.filter_append_perm (·.isNamed "ArgumentList")
    (arguments.filter fun a => !a.isNamed "TypeName")
  rw [List.filter_filter, List.filter_filter] at hrest
  have hlisted : arguments.filter (fun a => a.isNamed "ArgumentList" && !a.isNamed "TypeName") =
      arguments.filter (·.isNamed "ArgumentList") := by
    refine List.filter_congr fun a _ => ?_
    cases htype : a.isNamed "TypeName" with
    | false => exact Bool.and_true _
    | true => simp [not_isNamed_both htype]
  have hunnamed : arguments.filter (fun a => !a.isNamed "ArgumentList" && !a.isNamed "TypeName") =
      withoutName arguments := by
    refine List.filter_congr fun a ha => ?_
    rw [hvalues a ha, Bool.and_true]
    cases hn : a.name with
    | none => simp [Argument.isNamed, hn]
    | some name =>
      have hname := isObjectParameter_iff.mp (hnames a ha)
      rw [hn] at hname
      obtain h | h := hname rfl <;> simp [h]
  rw [hlisted, hunnamed] at hrest
  exact (List.filter_append_perm (·.isNamed "TypeName") arguments).symm.trans
    (hrest.symm.append_left _)

/-- Nothing but what the parameters take and leave. -/
theorem perm_of_takesInTurn (h : TakesInTurn arguments typed listed left)
    (hvalues : ∀ a ∈ arguments, a.value.isSome) (hdistinct : Argument.DistinctNames arguments)
    (hnames : ∀ a ∈ arguments, isObjectParameter a) :
    arguments.Perm (typed.toList ++ (listed.toList ++ left)) := by
  obtain ⟨between, ht, hl⟩ := h
  have htype := ht.filter_append hvalues hdistinct
  have hlist := hl.filter_append hvalues hdistinct
  calc
    arguments.Perm (arguments.filter (·.isNamed "TypeName") ++
        (arguments.filter (·.isNamed "ArgumentList") ++ withoutName arguments)) :=
      perm_of_names hvalues hnames
    List.Perm _ (arguments.filter (·.isNamed "ArgumentList") ++ (typed.toList ++ between)) :=
      htype ▸ List.perm_append_comm_assoc _ _ _
    List.Perm _ (typed.toList ++ (arguments.filter (·.isNamed "ArgumentList") ++ between)) :=
      List.perm_append_comm_assoc _ _ _
    _ = typed.toList ++ (listed.toList ++ left) := by rw [hlist]

theorem valued_and_distinct_of_perm (h : TakesInTurn arguments typed listed left)
    (hperm : arguments.Perm (typed.toList ++ listed.toList)) :
    (∀ a ∈ arguments, a.value.isSome) ∧ Argument.DistinctNames arguments := by
  obtain ⟨between, ht, hl⟩ := h
  have hbetween := ht.left_subset
  constructor
  · intro a ha
    obtain ha | ha := List.mem_append.mp (hperm.mem_iff.mp ha)
    · exact ht.isSome_of_taken (fun _ => isSome_of_mem_withoutName) a ha
    · exact hl.isSome_of_taken (fun _ hb => isSome_of_mem_withoutName (hbetween hb)) a ha
  · have htype := ht.names_sublist fun _ => name_of_mem_withoutName
    have hlist := hl.names_sublist fun _ hb => name_of_mem_withoutName (hbetween hb)
    have hnodup : [Text.fold "TypeName", Text.fold "ArgumentList"].Nodup := by decide
    rw [Argument.DistinctNames, (hperm.filterMap _).nodup_iff, List.filterMap_append]
    exact hnodup.sublist (htype.append hlist)

/-- Of the two arguments that a created object comes from, the one is its type and the other, if
there is one, is spread into what it is created with. They are all arguments of the call exactly
when each of these has a value and no name stands twice; and of such calls, those with an argument
that no parameter takes stay as they are. -/
theorem Invocation.arguments_accounted (invocation : Invocation) :
    (∃ typed listed left, TakesInTurn invocation.arguments typed listed left) ∧
    ∀ typed listed left, TakesInTurn invocation.arguments typed listed left →
      (∀ typeName passed, commandExpr invocation = .create typeName passed →
        typed.bind (·.value) = some (.string typeName) ∧ Spreads (listed.bind (·.value)) passed ∧
          (invocation.arguments.Perm (typed.toList ++ listed.toList) ↔
            (∀ a ∈ invocation.arguments, a.value.isSome) ∧
              Argument.DistinctNames invocation.arguments)) ∧
      ((∀ a ∈ invocation.arguments, a.value.isSome) →
        Argument.DistinctNames invocation.arguments →
        ¬ invocation.arguments.Perm (typed.toList ++ listed.toList) →
        commandExpr invocation = invocation.toExpr) := by
  refine ⟨exists_takesInTurn invocation.arguments, fun typed listed left htaken => ?_⟩
  have hall {typeName : String} {passed : List Argument}
      (hcreated : commandExpr invocation = .create typeName passed)
      (hvalues : ∀ a ∈ invocation.arguments, a.value.isSome)
      (hdistinct : Argument.DistinctNames invocation.arguments) :
      invocation.arguments.Perm (typed.toList ++ listed.toList) := by
    obtain ⟨-, hnames, -, rfl, -⟩ := (commandExpr_eq_create_iff htaken).mp hcreated
    have hperm := perm_of_takesInTurn htaken hvalues hdistinct hnames
    rwa [List.append_nil] at hperm
  constructor
  · intro typeName passed hcreated
    obtain ⟨-, -, htype, -, hspread⟩ := (commandExpr_eq_create_iff htaken).mp hcreated
    exact ⟨htype, spreads_iff.mpr hspread, valued_and_distinct_of_perm htaken,
      fun h => hall hcreated h.1 h.2⟩
  · intro hvalues hdistinct hlost
    refine (commandExpr_cases invocation).resolve_left ?_
    rintro ⟨typeName, passed, hcreated⟩
    exact hlost (hall hcreated hvalues hdistinct)

def fooOfTwo : Invocation :=
  ⟨.identifier "New-Object",
    [.named "ArgumentList" (.grouped (.array none [.literal "1", .literal "2"])),
      .positional (.string "Foo")]⟩

theorem fooOfTwo_accounted :
    (∀ a ∈ fooOfTwo.arguments, a.value.isSome) ∧ Argument.DistinctNames fooOfTwo.arguments ∧
      commandExpr fooOfTwo =
        .create "Foo" [.positional (.literal "1"), .positional (.literal "2")] ∧
      ∃ typed listed left, TakesInTurn fooOfTwo.arguments typed listed left ∧
        typed.bind (·.value) = some (.string "Foo") ∧
        Spreads (listed.bind (·.value)) [.positional (.literal "1"), .positional (.literal "2")] ∧
        fooOfTwo.arguments.Perm (typed.toList ++ listed.toList) := by
  have hvalues : ∀ a ∈ fooOfTwo.arguments, a.value.isSome := by
    simp [fooOfTwo, Argument.named, Argument.positional]
  have hdistinct : Argument.DistinctNames fooOfTwo.arguments := by decide
  have hcreated : commandExpr fooOfTwo =
      .create "Foo" [.positional (.literal "1"), .positional (.literal "2")] := rfl
  obtain ⟨⟨typed, listed, left, htaken⟩, hobject⟩ := Invocation.arguments_accounted fooOfTwo
  obtain ⟨htype, hspread, hperm⟩ := (hobject typed listed left htaken).1 "Foo" _ hcreated
  exact ⟨hvalues, hdistinct, hcreated, typed, listed, left, htaken, htype, hspread,
    hperm.mpr ⟨hvalues, hdistinct⟩⟩

/-- The arguments of `New-Object -TypeName A -TypeName B`. -/
def twiceTyped : List Argument := [.named "TypeName" (.string "A"), .named "TypeName" (.string "B")]

/-- Of two arguments of one name the second is lost: its value is neither the type of the object nor
spread into what the object is created with. -/
theorem twiceTyped_loses_value :
    commandExpr ⟨.identifier "New-Object", twiceTyped⟩ = .create "A" [] ∧
      ¬ ∃ value : Option Expr, Spreads value [] ∧
        (twiceTyped.map (·.value)).Perm (some (.string "A") :: value.toList.map some) := by
  refine ⟨rfl, ?_⟩
  rintro ⟨value, hspread, hperm⟩
  cases value with
  | none => exact absurd hperm.length_eq (by decide)
  | some e =>
    have hsecond : [some (Expr.string "B")].Perm [some e] := hperm.cons_inv
    cases List.perm_singleton.mp hsecond
    exact absurd (spreads_iff.mp hspread) nofun

end Host

end Interlingua
