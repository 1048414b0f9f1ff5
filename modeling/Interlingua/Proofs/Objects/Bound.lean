import Mathlib.Logic.Function.Iterate
import Interlingua.Host.Idiom
import Interlingua.Proofs.NormalForm

namespace Interlingua

/-- The first argument of that name, and it has a value. -/
def GivenByName (arguments : List Argument) (name : String) (a : Argument) : Prop :=
  (a.isNamed name ∧ ∃ before after, arguments = before ++ a :: after ∧
    ∀ b ∈ before, ¬ b.isNamed name) ∧ a.value.isSome

/-- What a parameter of that name takes when these arguments without a name are left to it, and
which of them it leaves. -/
inductive Takes (arguments : List Argument) (name : String) :
    List Argument → Option Argument → List Argument → Prop
  | byName {a : Argument} {unnamed : List Argument} :
      GivenByName arguments name a → Takes arguments name unnamed (some a) unnamed
  | byPlace {a : Argument} {unnamed : List Argument} :
      (∀ b, ¬ GivenByName arguments name b) → Takes arguments name (a :: unnamed) (some a) unnamed
  | nothing : (∀ b, ¬ GivenByName arguments name b) → Takes arguments name [] none []

def withoutName (arguments : List Argument) : List Argument :=
  arguments.filter fun a => a.name.isNone && a.value.isSome

/-- The arguments that a value is spread into: the elements of an array in any number of groups, or
what else stands in the groups. -/
inductive Spreads : Option Expr → List Argument → Prop
  | nothing : Spreads none []
  | elements (depth : Nat) (es : List Expr) :
      Spreads (some (Expr.grouped^[depth] (.array none es))) (es.map .positional)
  | single (depth : Nat) {e : Expr} : (∀ inner, e ≠ .grouped inner) → (∀ es, e ≠ .array none es) →
      Spreads (some (Expr.grouped^[depth] e)) [.positional e]

namespace Host

/-- The type is taken first, then the list of arguments. -/
def TakesInTurn (arguments : List Argument) (typed listed : Option Argument)
    (left : List Argument) : Prop :=
  ∃ between, Takes arguments "TypeName" (withoutName arguments) typed between ∧
    Takes arguments "ArgumentList" between listed left

/-- What it is for a call to create an object of that type with these arguments. -/
structure Creates (invocation : Invocation) (typeName : String) (passed : List Argument) :
    Prop where
  command : ∃ name, invocation.callee = .identifier name ∧
    Text.fold name = Text.fold "New-Object"
  names : ∀ a ∈ invocation.arguments, a.name.isSome →
    a.isNamed "TypeName" ∨ a.isNamed "ArgumentList"
  bound : ∃ typed listed, TakesInTurn invocation.arguments (some typed) listed [] ∧
    typed.value = some (.string typeName) ∧ Spreads (listed.bind (·.value)) passed

end Host

namespace Expr

theorem eq_iterate_ungrouped (e : Expr) : ∃ depth, e = grouped^[depth] e.ungrouped := by
  fun_induction ungrouped e with
  | case1 inner ih =>
    obtain ⟨depth, hinner⟩ := ih
    exact ⟨depth + 1, by rw [Function.iterate_succ_apply', ← hinner]⟩
  | case2 e => exact ⟨0, rfl⟩

theorem ungrouped_iterate {e : Expr} (h : ∀ inner, e ≠ grouped inner) (depth : Nat) :
    (grouped^[depth] e).ungrouped = e := by
  induction depth with
  | zero =>
    rw [Function.iterate_zero_apply, ungrouped]
    exact h
  | succ depth ih => rw [Function.iterate_succ_apply', ungrouped, ih]

end Expr

namespace Host

theorem spread_ungrouped {e : Expr} (h : ∀ es, e.ungrouped ≠ .array none es) :
    spread (some e) = [.positional e.ungrouped] := by
  dsimp only [spread]
  split
  · next es he => exact (h es he).elim
  · rfl

theorem spreads_iff {value : Option Expr} {passed : List Argument} :
    Spreads value passed ↔ passed = spread value := by
  constructor
  · intro h
    cases h with
    | nothing => rfl
    | elements depth es =>
      have hgroup : ∀ inner, Expr.array none es ≠ .grouped inner := nofun
      rw [spread, Expr.ungrouped_iterate hgroup]
    | single depth hgroup harray =>
      have he := Expr.ungrouped_iterate hgroup depth
      rw [spread_ungrouped (he.symm ▸ harray), he]
  · rintro rfl
    cases value with
    | none => exact .nothing
    | some e =>
      obtain ⟨depth, he⟩ := e.eq_iterate_ungrouped
      by_cases harray : ∃ es, e.ungrouped = .array none es
      · obtain ⟨es, hes⟩ := harray
        have hspread : spread (some e) = es.map .positional := by rw [spread, hes]
        rw [hspread, he, hes]
        exact .elements depth es
      · have hother := fun es hes => harray ⟨es, hes⟩
        have hsingle := Spreads.single depth e.ungrouped_ne_grouped hother
        rwa [← he, ← spread_ungrouped hother] at hsingle

end Host

section

variable {arguments unnamed left : List Argument} {name : String} {a b : Argument}
  {taken : Option Argument}

theorem givenByName_iff :
    GivenByName arguments name a ↔ argumentNamed arguments name = some a ∧ a.value.isSome := by
  rw [argumentNamed, List.find?_eq_some_iff_append]
  simp only [GivenByName, Bool.not_eq_true, Bool.not_eq_eq_eq_not, Bool.not_true]

theorem exists_takes (arguments : List Argument) (name : String) (unnamed : List Argument) :
    ∃ taken left, Takes arguments name unnamed taken left := by
  by_cases hgiven : ∃ a, GivenByName arguments name a
  · obtain ⟨a, ha⟩ := hgiven
    exact ⟨some a, unnamed, .byName ha⟩
  · have hnone := not_exists.mp hgiven
    cases unnamed with
    | nil => exact ⟨none, [], .nothing hnone⟩
    | cons a unnamed => exact ⟨some a, unnamed, .byPlace hnone⟩

theorem Takes.left_subset (h : Takes arguments name unnamed taken left) : left ⊆ unnamed := by
  cases h with
  | byName _ => exact List.Subset.refl _
  | byPlace _ => exact List.subset_cons_self _ _
  | nothing _ => exact List.Subset.refl _

namespace Host

theorem namedValue_of_given (h : GivenByName arguments name a) :
    namedValue arguments name = a.value := by
  rw [namedValue, (givenByName_iff.mp h).1, Option.bind_some]

theorem namedValue_eq_none (h : ∀ b, ¬ GivenByName arguments name b) :
    namedValue arguments name = none := by
  rw [namedValue, Option.bind_eq_none_iff]
  intro a ha
  have hvalue := h a
  rw [givenByName_iff, not_and] at hvalue
  exact Option.not_isSome_iff_eq_none.mp (hvalue ha)

theorem bindValue_of_takes (h : Takes arguments name unnamed taken left)
    (hvalues : ∀ b ∈ unnamed, b.value.isSome) :
    bindValue arguments name (unnamed.filterMap (·.value)) =
      (taken.bind (·.value), left.filterMap (·.value)) := by
  unfold bindValue
  cases h with
  | @byName a _ hgiven =>
    obtain ⟨value, hvalue⟩ := Option.isSome_iff_exists.mp hgiven.2
    rw [namedValue_of_given hgiven, Option.bind_some, hvalue]
  | @byPlace a _ hnone =>
    obtain ⟨value, hvalue⟩ := Option.isSome_iff_exists.mp (hvalues a List.mem_cons_self)
    rw [namedValue_eq_none hnone, List.filterMap_cons_some hvalue, Option.bind_some, hvalue]
    rfl
  | nothing hnone =>
    rw [namedValue_eq_none hnone]
    rfl

theorem isSome_of_mem_withoutName (h : a ∈ withoutName arguments) : a.value.isSome :=
  (Bool.and_eq_true_iff.mp (List.mem_filter.mp h).2).2

theorem positionalValues_eq (arguments : List Argument) :
    positionalValues arguments = (withoutName arguments).filterMap (·.value) := by
  rw [positionalValues, withoutName, List.filterMap_filter, List.filterMap_filter]
  congr
  funext a
  cases a.name <;> cases a.value <;> rfl

theorem isObjectParameter_iff :
    isObjectParameter a ↔ (a.name.isSome → a.isNamed "TypeName" ∨ a.isNamed "ArgumentList") := by
  unfold isObjectParameter
  cases a.name <;> simp

end Host

end

namespace Host

variable {arguments left passed : List Argument} {typed listed : Option Argument}
  {typeName : String} {invocation : Invocation}

theorem exists_takesInTurn (arguments : List Argument) :
    ∃ typed listed left, TakesInTurn arguments typed listed left := by
  obtain ⟨typed, between, ht⟩ := exists_takes arguments "TypeName" (withoutName arguments)
  obtain ⟨listed, left, hl⟩ := exists_takes arguments "ArgumentList" between
  exact ⟨typed, listed, left, between, ht, hl⟩

theorem createdObject_eq_create_iff (h : TakesInTurn arguments typed listed left) :
    createdObject arguments = some (.create typeName passed) ↔
      (∀ a ∈ arguments, isObjectParameter a) ∧ typed.bind (·.value) = some (.string typeName) ∧
        left = [] ∧ passed = spread (listed.bind (·.value)) := by
  obtain ⟨between, ht, hl⟩ := h
  have hbetween : ∀ b ∈ between, b.value.isSome :=
    fun b hb => isSome_of_mem_withoutName (ht.left_subset hb)
  have hleft : left.filterMap (·.value) = [] ↔ left = [] := by
    rw [List.filterMap_eq_nil_iff]
    refine ⟨fun hnone => List.eq_nil_iff_forall_not_mem.mpr fun b hb => ?_, fun h => by simp [h]⟩
    simpa [hnone b hb] using hbetween b (hl.left_subset hb)
  unfold createdObject
  rw [positionalValues_eq, bindValue_of_takes ht fun b => isSome_of_mem_withoutName,
    ← List.all_eq_true]
  split
  · next hall =>
    -- Only a literal name leads on to the list of arguments.
    generalize typed.bind (·.value) = type
    cases type with
    | none => simp
    | some e =>
      cases e with
      | string name =>
        simp only [bindValue_of_takes hl hbetween, ← hleft]
        cases left.filterMap (·.value) with
        | nil => simp [hall, @eq_comm _ passed]
        | cons value values => simp
      | _ => simp
  · next hall => simp [hall]

theorem commandExpr_eq_create_iff_createdObject :
    commandExpr invocation = .create typeName passed ↔
      (∃ name, invocation.callee = .identifier name ∧ Text.fold name = Text.fold "New-Object") ∧
        createdObject invocation.arguments = some (.create typeName passed) := by
  have hname : invocation.commandName.any (Text.sameName "New-Object") ↔
      ∃ name, invocation.callee = .identifier name ∧ Text.fold name = Text.fold "New-Object" := by
    unfold Invocation.commandName
    split
    · next name hcallee =>
      simp only [hcallee, Option.any_some, Text.sameName_iff, Expr.identifier.injEq,
        exists_eq_left']
      exact eq_comm
    · next hcallee =>
      simp only [Option.any_none, Bool.false_eq_true, false_iff]
      rintro ⟨name, hname, -⟩
      exact hcallee name hname
  rw [← hname]
  unfold commandExpr
  split
  · next hcommand =>
    cases createdObject invocation.arguments with
    | none => simp [hcommand, Invocation.toExpr]
    | some object => simp [hcommand]
  · next hcommand => simp [hcommand, Invocation.toExpr]

theorem commandExpr_eq_create_iff (h : TakesInTurn invocation.arguments typed listed left) :
    commandExpr invocation = .create typeName passed ↔
      (∃ name, invocation.callee = .identifier name ∧ Text.fold name = Text.fold "New-Object") ∧
        (∀ a ∈ invocation.arguments, isObjectParameter a) ∧
        typed.bind (·.value) = some (.string typeName) ∧ left = [] ∧
        passed = spread (listed.bind (·.value)) := by
  rw [commandExpr_eq_create_iff_createdObject, createdObject_eq_create_iff h]

theorem commandExpr_cases (invocation : Invocation) :
    (∃ typeName passed, commandExpr invocation = .create typeName passed) ∨
      commandExpr invocation = invocation.toExpr := by
  unfold commandExpr
  split
  · cases hobject : createdObject invocation.arguments with
    | none => exact .inr rfl
    | some object =>
      obtain ⟨typeName, passed, rfl⟩ := eq_create_of_createdObject hobject
      exact .inl ⟨typeName, passed, rfl⟩
  · exact .inr rfl

theorem creates_iff :
    Creates invocation typeName passed ↔ commandExpr invocation = .create typeName passed := by
  constructor
  · rintro ⟨hcommand, hnames, typed, listed, htaken, htype, hspread⟩
    exact (commandExpr_eq_create_iff htaken).mpr ⟨hcommand,
      fun a ha => isObjectParameter_iff.mpr (hnames a ha), htype, rfl, spreads_iff.mp hspread⟩
  · intro hcreated
    obtain ⟨typed, listed, left, htaken⟩ := exists_takesInTurn invocation.arguments
    obtain ⟨hcommand, hnames, htype, rfl, hspread⟩ :=
      (commandExpr_eq_create_iff htaken).mp hcreated
    obtain ⟨a, rfl, ha⟩ := Option.bind_eq_some_iff.mp htype
    exact ⟨hcommand, fun a ha => isObjectParameter_iff.mp (hnames a ha), a, listed, htaken, ha,
      spreads_iff.mpr hspread⟩

/-- A call becomes an object exactly when its name and its arguments say which, and it is that
object; in every other case it stays as it is. -/
theorem Invocation.creates_or_stays (invocation : Invocation) :
    (∀ typeName passed,
      commandExpr invocation = .create typeName passed ↔ Creates invocation typeName passed) ∧
    (commandExpr invocation = invocation.toExpr ↔
      ¬ ∃ typeName passed, Creates invocation typeName passed) := by
  refine ⟨fun _ _ => creates_iff.symm, ?_⟩
  simp only [creates_iff]
  constructor
  · rintro hstays ⟨typeName, passed, hcreated⟩
    rw [hstays] at hcreated
    cases hcreated
  · exact (commandExpr_cases invocation).resolve_left

end Host

end Interlingua
