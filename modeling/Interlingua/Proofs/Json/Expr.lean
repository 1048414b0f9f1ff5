import Interlingua.Proofs.Json.Fields
import Interlingua.Proofs.Json.Text
import Interlingua.Tree.Json

namespace Interlingua

open Json

variable {bound : Nat}

theorem BinaryOperator.ofJson_toJson (op : BinaryOperator) : ofJson op.toJson = some op :=
  ofName?_name op

theorem UnaryOperator.ofJson_toJson (op : UnaryOperator) : ofJson op.toJson = some op :=
  ofName?_name op

theorem BinaryOperator.optional?_toJson (op : Option BinaryOperator) :
    optional? ofJson (ofOption toJson op) = some op :=
  optional?_ofOption (fun op => ⟨Json.noConfusion, op.ofJson_toJson⟩) op

theorem Expr.toJson_ne_null (e : Expr) : e.toJson ≠ .null := by
  cases e <;> exact Json.noConfusion

theorem Argument.read_toJson {expr : Json → Option Expr} {a : Argument}
    (h : optional? expr (optExprToJson a.value) = some a.value) :
    Argument.read expr a.toJson = some a := by
  obtain ⟨name, value⟩ := a
  simp [Argument.read, Argument.toJson, allFields?_object, h]

theorem readArguments_object {expr : Json → Option Expr} {items : List Json}
    {arguments : List Argument} (h : items.mapM (Argument.read expr) = some arguments) :
    readArguments expr (.object [("arguments", .array items)]) = some arguments := by
  simp [readArguments, allFields?_object, list?, h]

theorem readIndex_object {expr : Json → Option Expr} {items : List Json}
    {arguments : List Argument} (h : items.mapM (Argument.read expr) = some arguments) :
    readIndex expr (.object [("arguments", .object [("arguments", .array items)])]) =
      some arguments := by
  simp [readIndex, allFields?_object, readArguments_object h]

mutual

theorem Expr.readAt_toJson {d : Nat} (e : Expr) (h : e.toJson.depth < d) :
    Expr.readAt d e.toJson = some e := by
  obtain ⟨d, rfl⟩ : ∃ n, d = n + 1 := ⟨d - 1, by omega⟩
  rw [Expr.readAt, Expr.read]
  cases e with
  | literal text | string text | template text | identifier text => rfl
  -- `dsimp` lets the tag pick its branch first; `simp` alone would go through all of them.
  | binary left op right =>
    simp only [Expr.toJson, tagged, depth, depthOfMembers, depthOfMember] at h
    have hl := left.readAt_toJson (d := d) (by omega)
    have hr := right.readAt_toJson (d := d) (by omega)
    dsimp only [Expr.toJson, tagged, variant?, Option.bind_eq_bind, Option.bind_some]
    simp [allFields?_object, op.ofJson_toJson, hl, hr]
  | before op operand | after op operand =>
    simp only [Expr.toJson, tagged, depth, depthOfMembers, depthOfMember] at h
    have ho := operand.readAt_toJson (d := d) (by omega)
    dsimp only [Expr.toJson, tagged, variant?, Option.bind_eq_bind, Option.bind_some]
    simp [allFields?_object, op.ofJson_toJson, ho]
  | cast typeName operand =>
    simp only [Expr.toJson, tagged, depth, depthOfMembers, depthOfMember] at h
    have ho := operand.readAt_toJson (d := d) (by omega)
    dsimp only [Expr.toJson, tagged, variant?, Option.bind_eq_bind, Option.bind_some]
    simp [allFields?_object, string?, ho]
  | grouped inner =>
    simp only [Expr.toJson, tagged, depth, depthOfMembers, depthOfMember] at h
    have hi := inner.readAt_toJson (d := d) (by omega)
    dsimp only [Expr.toJson, tagged, variant?, Option.bind_eq_bind, Option.bind_some]
    simp [hi]
  | member target name isStatic =>
    simp only [Expr.toJson, tagged, depth, depthOfMembers, depthOfMember] at h
    have ht := target.readAt_toJson (d := d) (by omega)
    dsimp only [Expr.toJson, tagged, variant?, Option.bind_eq_bind, Option.bind_some]
    simp [allFields?_object, string?, bool?, ht]
  | element target index =>
    simp only [Expr.toJson, tagged, depth, depthOfMembers, depthOfMember] at h
    have ht := target.readAt_toJson (d := d) (by omega)
    have hi := readIndex_object (mapM_argumentsToJson (d := d) index (by omega))
    dsimp only [Expr.toJson, tagged, variant?, Option.bind_eq_bind, Option.bind_some]
    simp [allFields?_object, ht, hi]
  | call callee arguments =>
    simp only [Expr.toJson, tagged, depth, depthOfMembers, depthOfMember] at h
    have hc := callee.readAt_toJson (d := d) (by omega)
    have ha := readArguments_object (mapM_argumentsToJson (d := d) arguments (by omega))
    dsimp only [Expr.toJson, tagged, variant?, Option.bind_eq_bind, Option.bind_some]
    simp [Invocation.read, Invocation.toExpr, allFields?_object, hc, ha]
  | create typeName arguments =>
    simp only [Expr.toJson, tagged, depth, depthOfMembers, depthOfMember] at h
    have ha := readArguments_object (mapM_argumentsToJson (d := d) arguments (by omega))
    dsimp only [Expr.toJson, tagged, variant?, Option.bind_eq_bind, Option.bind_some]
    simp [allFields?_object, string?, ha]
  | array elementType elements =>
    simp only [Expr.toJson, tagged, depth, depthOfMembers, depthOfMember] at h
    have he := mapM_exprsToJson (d := d) elements (by omega)
    dsimp only [Expr.toJson, tagged, variant?, Option.bind_eq_bind, Option.bind_some]
    simp [allFields?_object, list?, he]
  | assign target op value =>
    simp only [Expr.toJson, tagged, depth, depthOfMembers, depthOfMember] at h
    have ht := target.readAt_toJson (d := d) (by omega)
    have hv := value.readAt_toJson (d := d) (by omega)
    dsimp only [Expr.toJson, tagged, variant?, Option.bind_eq_bind, Option.bind_some]
    simp [allFields?_object, BinaryOperator.optional?_toJson, ht, hv]
termination_by structural e

theorem Argument.readAt_toJson {d : Nat} (a : Argument) (h : a.toJson.depth < d) :
    Argument.read (Expr.readAt d) a.toJson = some a := by
  obtain ⟨name, value⟩ := a
  simp only [Argument.toJson, depth, depthOfMembers, depthOfMember] at h
  exact Argument.read_toJson (optional?_optExprToJson value (by omega))
termination_by structural a

theorem optional?_optExprToJson {d : Nat} (e : Option Expr) (h : (optExprToJson e).depth < d) :
    optional? (Expr.readAt d) (optExprToJson e) = some e := by
  cases e with
  | none => rfl
  | some e =>
    have he := e.readAt_toJson h
    rw [optExprToJson, optional?_of_ne_null e.toJson_ne_null, he]
    rfl
termination_by structural e

theorem mapM_exprsToJson {d : Nat} (es : List Expr) (h : depthOfItems (exprsToJson es) < d) :
    (exprsToJson es).mapM (Expr.readAt d) = some es := by
  cases es with
  | nil => rfl
  | cons e es =>
    obtain ⟨he, hes⟩ := depthOfItems_cons_lt.mp h
    simp [exprsToJson, List.mapM_cons, e.readAt_toJson he, mapM_exprsToJson es hes]
termination_by structural es

theorem mapM_argumentsToJson {d : Nat} (as : List Argument)
    (h : depthOfItems (argumentsToJson as) < d) :
    (argumentsToJson as).mapM (Argument.read (Expr.readAt d)) = some as := by
  cases as with
  | nil => rfl
  | cons a as =>
    obtain ⟨ha, has⟩ := depthOfItems_cons_lt.mp h
    simp [argumentsToJson, List.mapM_cons, a.readAt_toJson ha, mapM_argumentsToJson as has]
termination_by structural as

end

theorem Expr.ofJson_toJson (e : Expr) : Expr.ofJson e.toJson = some e :=
  e.readAt_toJson (Nat.lt_succ_self _)

theorem optional?_ofJson_optExprToJson (e : Option Expr) :
    optional? Expr.ofJson (optExprToJson e) = some e := by
  cases e with
  | none => rfl
  | some e =>
    rw [optExprToJson, optional?_of_ne_null e.toJson_ne_null, e.ofJson_toJson]
    rfl

theorem argumentsOfJson_toJson (as : List Argument) :
    argumentsOfJson (argumentListToJson as) = some as := by
  refine readArguments_object ?_
  induction as with
  | nil => rfl
  | cons a as ih =>
    have ha : Argument.read Expr.ofJson a.toJson = some a :=
      Argument.read_toJson (optional?_ofJson_optExprToJson a.value)
    simp [argumentsToJson, List.mapM_cons, ha, ih]

mutual

theorem Expr.numbersBelow_toJson (e : Expr) : e.toJson.NumbersBelow bound := by
  cases e with
  | literal | string | template | identifier => exact ⟨trivial, trivial⟩
  | binary left op right =>
    exact ⟨⟨left.numbersBelow_toJson, trivial, right.numbersBelow_toJson, trivial⟩, trivial⟩
  | before _ e | after _ e | cast _ e =>
    exact ⟨⟨trivial, e.numbersBelow_toJson, trivial⟩, trivial⟩
  | grouped e => exact ⟨e.numbersBelow_toJson, trivial⟩
  | member e _ _ => exact ⟨⟨e.numbersBelow_toJson, trivial, trivial, trivial⟩, trivial⟩
  | element e arguments =>
    have ha := itemsBelow_argumentsToJson arguments
    exact ⟨⟨e.numbersBelow_toJson, ⟨⟨ha, trivial⟩, trivial⟩, trivial⟩, trivial⟩
  | call e arguments =>
    have ha := itemsBelow_argumentsToJson arguments
    exact ⟨⟨e.numbersBelow_toJson, ⟨ha, trivial⟩, trivial⟩, trivial⟩
  | create _ arguments =>
    have ha := itemsBelow_argumentsToJson arguments
    exact ⟨⟨trivial, ⟨ha, trivial⟩, trivial⟩, trivial⟩
  | array elementType elements =>
    have he := itemsBelow_exprsToJson elements
    exact ⟨⟨numbersBelow_ofOption_string elementType, he, trivial⟩, trivial⟩
  | assign target op value =>
    have ho : (ofOption BinaryOperator.toJson op).NumbersBelow bound :=
      numbersBelow_ofOption (fun _ => by trivial) op
    exact ⟨⟨target.numbersBelow_toJson, ho, value.numbersBelow_toJson, trivial⟩, trivial⟩
termination_by structural e

theorem Argument.numbersBelow_toJson (a : Argument) : a.toJson.NumbersBelow bound := by
  obtain ⟨name, value⟩ := a
  exact ⟨numbersBelow_ofOption_string name, numbersBelow_optExprToJson value, trivial⟩
termination_by structural a

theorem numbersBelow_optExprToJson (e : Option Expr) : (optExprToJson e).NumbersBelow bound := by
  cases e with
  | none => trivial
  | some e => exact e.numbersBelow_toJson
termination_by structural e

theorem itemsBelow_exprsToJson (es : List Expr) : ItemsBelow bound (exprsToJson es) := by
  cases es with
  | nil => trivial
  | cons e es => exact ⟨e.numbersBelow_toJson, itemsBelow_exprsToJson es⟩
termination_by structural es

theorem itemsBelow_argumentsToJson (as : List Argument) :
    ItemsBelow bound (argumentsToJson as) := by
  cases as with
  | nil => trivial
  | cons a as => exact ⟨a.numbersBelow_toJson, itemsBelow_argumentsToJson as⟩
termination_by structural as

end

end Interlingua
