import Mathlib.Data.List.Forall2
import Interlingua.Proofs.Objects.Accounted

namespace Interlingua

/-- The same argument with its name in another case. -/
def Argument.Recased (a b : Argument) : Prop := a.foldedName = b.foldedName ∧ a.value = b.value

namespace Invocation

/-- The same call, but for the places of its named arguments and the case of names. -/
structure Reordered (invocation other : Invocation) : Prop where
  callee : invocation.callee = other.callee ∨ ∃ name name', Text.fold name = Text.fold name' ∧
    invocation.callee = .identifier name ∧ other.callee = .identifier name'
  arguments : ∃ moved, invocation.arguments.Perm moved ∧
    moved.filter (·.name.isNone) = invocation.arguments.filter (·.name.isNone) ∧
    List.Forall₂ Argument.Recased moved other.arguments

end Invocation

namespace Argument

variable {arguments others : List Argument}

def folded (a : Argument) : Option (List Char) × Option Expr := (a.foldedName, a.value)

theorem map_folded_eq (h : List.Forall₂ Recased arguments others) :
    arguments.map folded = others.map folded := by
  induction h with
  | nil => rfl
  | cons hab _ ih => rw [List.map_cons, List.map_cons, ih, folded, folded, hab.1, hab.2]

end Argument

namespace Host

variable {arguments others : List Argument}

theorem createdObject_congr
    (hnames : arguments.all isObjectParameter = others.all isObjectParameter)
    (hnamed : ∀ name, namedValue arguments name = namedValue others name)
    (hpositional : positionalValues arguments = positionalValues others) :
    createdObject arguments = createdObject others := by
  have hbind (name : String) (values : List Expr) :
      bindValue arguments name values = bindValue others name values := by
    rw [bindValue, bindValue, hnamed]
  unfold createdObject
  simp only [hnames, hpositional, hbind]

section Moved

variable (hdistinct : Argument.DistinctNames arguments) (hperm : arguments.Perm others)
include hdistinct hperm

/-- There is one argument of the name at most, wherever it stands. -/
theorem namedValue_moved (name : String) : namedValue arguments name = namedValue others name := by
  have hothers : Argument.DistinctNames others := (hperm.filterMap _).nodup_iff.mp hdistinct
  have hfilter := hperm.filter (·.isNamed name)
  rw [Argument.filter_isNamed hdistinct, Argument.filter_isNamed hothers] at hfilter
  unfold namedValue
  congr 1
  cases hother : argumentNamed others name with
  | none =>
    rw [hother] at hfilter
    exact Option.toList_eq_nil_iff.mp (List.perm_nil.mp hfilter)
  | some b =>
    rw [hother] at hfilter
    exact Option.toList_eq_singleton_iff.mp (List.perm_singleton.mp hfilter)

theorem createdObject_moved
    (hunnamed : others.filter (·.name.isNone) = arguments.filter (·.name.isNone)) :
    createdObject arguments = createdObject others := by
  refine createdObject_congr hperm.all_eq (namedValue_moved hdistinct hperm) ?_
  rw [positionalValues, positionalValues, hunnamed]

end Moved

theorem isNamed_eq (a : Argument) (name : String) :
    a.isNamed name = (a.folded.1 == some (Text.fold name)) := by
  rw [Bool.eq_iff_iff, Argument.isNamed_iff, beq_iff_eq]
  rfl

theorem isNone_eq (a : Argument) : a.name.isNone = a.folded.1.isNone := Option.isNone_map.symm

theorem createdObject_recased (h : List.Forall₂ Argument.Recased arguments others) :
    createdObject arguments = createdObject others := by
  have hfolded := Argument.map_folded_eq h
  refine createdObject_congr ?_ (fun name => ?_) ?_
  · have hall (as : List Argument) : as.all isObjectParameter =
        (as.map Argument.folded).all fun p => p.1.isNone || p.1 == some (Text.fold "TypeName") ||
          p.1 == some (Text.fold "ArgumentList") := by
      rw [List.all_map]
      congr
      funext a
      rw [isObjectParameter, isNone_eq, isNamed_eq, isNamed_eq]
      rfl
    rw [hall, hall, hfolded]
  · have hnamed (as : List Argument) : namedValue as name =
        ((as.map Argument.folded).find? (·.1 == some (Text.fold name))).bind (·.2) := by
      rw [List.find?_map, Option.bind_map, namedValue, argumentNamed]
      simp only [isNamed_eq]
      rfl
    rw [hnamed, hnamed, hfolded]
  · have hpositional (as : List Argument) : positionalValues as =
        ((as.map Argument.folded).filter (·.1.isNone)).filterMap (·.2) := by
      rw [List.filter_map, List.filterMap_map, positionalValues]
      simp only [isNone_eq]
      rfl
    rw [hpositional, hpositional, hfolded]

theorem commandName_any_eq {invocation other : Invocation} (h : invocation.Reordered other) :
    invocation.commandName.any (Text.sameName "New-Object") =
      other.commandName.any (Text.sameName "New-Object") := by
  obtain hcallee | ⟨name, name', hname, hcallee, hcallee'⟩ := h.callee
  · rw [Invocation.commandName, Invocation.commandName, hcallee]
  · rw [Invocation.commandName, Invocation.commandName, hcallee, hcallee']
    simp only [Option.any_some, Text.sameName, hname]

/-- A call and the same call with its named arguments elsewhere and its names in another case
create the same object or both stay as they are. -/
theorem Invocation.same_object_of_reordered {invocation other : Invocation}
    (h : invocation.Reordered other) (hdistinct : Argument.DistinctNames invocation.arguments) :
    (∃ typeName passed, commandExpr invocation = .create typeName passed ∧
      commandExpr other = .create typeName passed) ∨
    (commandExpr invocation = invocation.toExpr ∧ commandExpr other = other.toExpr) := by
  obtain ⟨moved, hperm, hunnamed, hrecased⟩ := h.arguments
  have hobject : createdObject invocation.arguments = createdObject other.arguments :=
    (createdObject_moved hdistinct hperm hunnamed).trans (createdObject_recased hrecased)
  unfold commandExpr
  rw [commandName_any_eq h, hobject]
  split
  · cases hcreated : createdObject other.arguments with
    | none => exact .inr ⟨rfl, rfl⟩
    | some object =>
      obtain ⟨typeName, passed, rfl⟩ := eq_create_of_createdObject hcreated
      exact .inl ⟨typeName, passed, rfl, rfl⟩
  · exact .inr ⟨rfl, rfl⟩

def fooFirst : Invocation :=
  ⟨.identifier "new-OBJECT", [.positional (.string "Foo"),
    .named "argumentlist" (.grouped (.array none [.literal "1", .literal "2"]))]⟩

theorem fooFirst_same_object :
    fooOfTwo.Reordered fooFirst ∧ Argument.DistinctNames fooOfTwo.arguments ∧
      ((∃ typeName passed, commandExpr fooOfTwo = .create typeName passed ∧
        commandExpr fooFirst = .create typeName passed) ∨
      (commandExpr fooOfTwo = fooOfTwo.toExpr ∧ commandExpr fooFirst = fooFirst.toExpr)) := by
  have hdistinct : Argument.DistinctNames fooOfTwo.arguments := by decide
  have hreordered : fooOfTwo.Reordered fooFirst := by
    refine ⟨.inr ⟨"New-Object", "new-OBJECT", by decide, rfl, rfl⟩, _, List.Perm.swap _ _ [], rfl,
      ?_⟩
    exact .cons ⟨rfl, rfl⟩ (.cons ⟨by decide, rfl⟩ .nil)
  exact ⟨hreordered, hdistinct, Invocation.same_object_of_reordered hreordered hdistinct⟩

end Host

end Interlingua
