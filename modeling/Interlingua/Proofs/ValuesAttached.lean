import Interlingua.Proofs.Recording
import Interlingua.Proofs.Shapes

namespace Interlingua

def Argument.parts (a : Argument) : List (String ⊕ Expr) :=
  a.name.toList.map .inl ++ a.value.toList.map .inr

/-- The arguments of a row of names and values: each name takes the value right behind it. -/
def Argument.ofParts : List (String ⊕ Expr) → List Argument
  | [] => []
  | .inl name :: .inr value :: rest => .named name value :: ofParts rest
  | .inl name :: rest => .flag name :: ofParts rest
  | .inr value :: rest => .positional value :: ofParts rest

namespace Argument

theorem parts_attachValues (as : List Argument) :
    (attachValues as).flatMap parts = as.flatMap parts := by
  let names (name : Option String) : List (String ⊕ Expr) := name.toList.map .inl
  let values (value : Option Expr) : List (String ⊕ Expr) := value.toList.map .inr
  have hparts (a : Argument) : a.parts = names a.name ++ values a.value := rfl
  exact flatMap_attachValues names hparts rfl rfl as

theorem ofParts_parts {as : List Argument} (h : AllSettled as) :
    ofParts (as.flatMap parts) = as := by
  induction as with
  | nil => rfl
  | cons a as ih =>
    -- What is settled stays so without its first argument.
    obtain ⟨hgiven, hchain⟩ := h
    obtain ⟨ha, hgivens⟩ := List.forall_mem_cons.mp hgiven
    obtain ⟨hnext, hrest⟩ := List.isChain_cons.mp hchain
    have has := ih ⟨hgivens, hrest⟩
    rw [List.flatMap_cons]
    obtain ⟨name, value⟩ := a
    match name, value with
    | some name, some value => exact congrArg (named name value :: ·) has
    | none, some value => exact congrArg (positional value :: ·) has
    | none, none => simp [IsGiven] at ha
    | some name, none =>
      -- Behind a name alone stands another name or nothing.
      cases as with
      | nil => rfl
      | cons b as =>
        obtain ⟨name', value'⟩ := b
        cases name' with
        | none => exact (hnext ⟨none, value'⟩ rfl ⟨rfl, rfl⟩).elim
        | some name' => exact congrArg (flag name :: ·) has

end Argument

theorem attachValues_eq_ofParts {as : List Argument} (h : ∀ a ∈ as, a.IsGiven) :
    attachValues as = Argument.ofParts (as.flatMap Argument.parts) := by
  rw [← Argument.parts_attachValues, Argument.ofParts_parts (allSettled_attachValues h)]

/-- A value right behind a name is as good as one given with it. -/
theorem attachValues_flag_positional (before : List Argument) (name : String) (value : Expr)
    (after : List Argument) :
    attachValues (before ++ .flag name :: .positional value :: after) =
      attachValues (before ++ .named name value :: after) := by
  have hnamed : attachValues (.named name value :: after) =
      .named name value :: attachValues after := by
    cases after <;> rfl
  fun_induction attachValues before with
  | case1 => exact hnamed.symm
  | case2 a =>
    have hnext (b : Argument) (rest : List Argument) (hb : b.isUnnamed = false) :
        attachValues (a :: b :: rest) = a :: attachValues (b :: rest) := by
      rw [attachValues, hb, Bool.and_false]
      rfl
    calc
      attachValues (a :: .flag name :: .positional value :: after) =
          a :: attachValues (.flag name :: .positional value :: after) := hnext _ _ rfl
      _ = a :: attachValues (.named name value :: after) := congrArg (a :: ·) hnamed.symm
      _ = attachValues (a :: .named name value :: after) := (hnext _ _ rfl).symm
  | case3 a next rest h ih =>
    simpa only [List.cons_append, attachValues, if_pos h] using
      congrArg ({ a with value := next.value } :: ·) ih
  | case4 a next rest h ih =>
    simpa only [List.cons_append, attachValues, if_neg h] using congrArg (a :: ·) ih

namespace Host

theorem argumentsOf_append (policy : ReadPolicy) (as bs : List Ast) :
    argumentsOf policy (as ++ bs) = do
      let xs ← argumentsOf policy as
      let ys ← argumentsOf policy bs
      return xs ++ ys := by
  induction as with
  | nil => simp [argumentsOf]
  | cons a as ih => simp [argumentsOf, ih]

theorem Ast.toArgument_eq_positional {policy : ReadPolicy} {a : Ast}
    (h : ∀ name argument, a.kind ≠ .commandParameter name argument) :
    a.toArgument policy = do return .positional (← a.toExpr policy) := by
  obtain ⟨extent, kind⟩ := a
  cases kind with
  | commandParameter name argument => exact (h name argument rfl).elim
  | _ => rfl

theorem Ast.toExpr_command (policy : ReadPolicy) (place : Extent) (head : Ast) (rest : List Ast) :
    (⟨place, .command (head :: rest)⟩ : Ast).toExpr policy = do
      let callee ← head.toCallee policy
      let passed ← attachValues <$> argumentsOf policy rest
      return commandExpr ⟨callee, passed⟩ := by
  simp only [Ast.toExpr, Kind.toExpr, bind_map_left]

theorem attachValues_argumentsOf {policy : ReadPolicy} {value : Ast}
    (h : ∀ name argument, value.kind ≠ .commandParameter name argument) (apart joined : Extent)
    (before : List Ast) (name : String) (after : List Ast) :
    attachValues <$> argumentsOf policy
        (before ++ ⟨apart, .commandParameter name none⟩ :: value :: after) =
      attachValues <$> argumentsOf policy
        (before ++ ⟨joined, .commandParameter name (some value)⟩ :: after) := by
  have hflag (xs : List Argument) (e : Expr) (ys : List Argument) :
      attachValues (xs ++ ⟨some name, none⟩ :: .positional e :: ys) =
        attachValues (xs ++ ⟨some name, some e⟩ :: ys) :=
    attachValues_flag_positional xs name e ys
  simp [argumentsOf_append, argumentsOf, Ast.toArgument, Ast.toArgument_eq_positional h, optExprOf,
    hflag]

/-- Attaching values keeps the row of names and values, leaves no name in front of a value without
one and is determined by that row. So wherever a parameter stands behind what a command runs, it may
have its value behind it or with it: the command is read as the same, with the same diagnostics, or
the same construct ends the reading. -/
theorem Ast.values_attached :
    (∀ builders : List Argument, (∀ b ∈ builders, b.IsGiven) →
      (attachValues builders).flatMap Argument.parts = builders.flatMap Argument.parts ∧
        (attachValues builders).IsChain fun a b => ¬ (a.lacksValue ∧ b.isUnnamed)) ∧
    (∀ builders others : List Argument, (∀ b ∈ builders, b.IsGiven) →
      (∀ b ∈ others, b.IsGiven) →
      builders.flatMap Argument.parts = others.flatMap Argument.parts →
      attachValues builders = attachValues others) ∧
    ∀ (policy : ReadPolicy) (place place' apart joined : Extent) (head value : Ast)
      (before after : List Ast) (name : String),
      (∀ name' argument, value.kind ≠ .commandParameter name' argument) →
      (⟨place, .command (head :: before ++
          ⟨apart, .commandParameter name none⟩ :: value :: after)⟩ : Ast).toExpr policy =
        (⟨place', .command (head :: before ++
          ⟨joined, .commandParameter name (some value)⟩ :: after)⟩ : Ast).toExpr policy := by
  refine ⟨fun builders h => ⟨Argument.parts_attachValues builders, (allSettled_attachValues h).2⟩,
    fun builders others h h' hparts => ?_, ?_⟩
  · rw [attachValues_eq_ofParts h, attachValues_eq_ofParts h', hparts]
  · intro policy place place' apart joined head value before after name hvalue
    rw [List.cons_append, List.cons_append, toExpr_command, toExpr_command,
      attachValues_argumentsOf hvalue apart joined]

def itemApart : List Argument := [.flag "Force", .flag "Path", .positional (.string ".")]

def itemJoined : List Argument := [.flag "Force", .named "Path" (.string ".")]

def getItem (path : List Ast) : Ast :=
  .ofKind (.command (.ofKind (.stringConstant "Get-Item") ::
    [.ofKind (.commandParameter "Force" none)] ++ path))

theorem getItem_values_attached :
    ((attachValues itemApart).flatMap Argument.parts = itemApart.flatMap Argument.parts ∧
      (attachValues itemApart).IsChain fun a b => ¬ (a.lacksValue ∧ b.isUnnamed)) ∧
    (attachValues itemApart = attachValues itemJoined ∧ attachValues itemJoined = itemJoined) ∧
    (getItem [.ofKind (.commandParameter "Path" none),
        .ofKind (.stringConstant ".")]).toExpr {} =
      (getItem [.ofKind (.commandParameter "Path" (some (.ofKind (.stringConstant "."))))]).toExpr
        {} ∧
    (getItem [.ofKind (.commandParameter "Path" none), .ofKind (.stringConstant ".")]).toExpr {} =
      .ok (.call (.identifier "Get-Item") itemJoined, []) := by
  have hapart : ∀ b ∈ itemApart, b.IsGiven := by
    simp [itemApart, Argument.IsGiven, Argument.flag, Argument.positional]
  have hjoined : ∀ b ∈ itemJoined, b.IsGiven := by
    simp [itemJoined, Argument.IsGiven, Argument.flag, Argument.named]
  have hvalue (name : String) (argument : Option Ast) :
      (Ast.ofKind (.stringConstant ".")).kind ≠ .commandParameter name argument := by
    intro h
    cases h
  obtain ⟨hkept, hsame, hcommand⟩ := Ast.values_attached
  refine ⟨hkept itemApart hapart, ⟨hsame itemApart itemJoined hapart hjoined rfl, rfl⟩, ?_, rfl⟩
  exact hcommand {} {} {} {} {} (.ofKind (.stringConstant "Get-Item"))
    (.ofKind (.stringConstant ".")) [.ofKind (.commandParameter "Force" none)] [] "Path"
    hvalue

end Host

end Interlingua
