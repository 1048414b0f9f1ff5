import Interlingua.Json.Text
import Interlingua.Proofs.Json.Expr

namespace Interlingua

open Json

theorem Parameter.ofJson_toJson (p : Parameter) : Parameter.ofJson p.toJson = some p := by
  simp [Parameter.ofJson, Parameter.toJson, allFields?_object, string?]

theorem Attribute.ofJson_toJson (a : Attribute) : Attribute.ofJson a.toJson = some a := by
  simp [Attribute.ofJson, Attribute.toJson, allFields?_object, string?, argumentsOfJson_toJson]

theorem Stmt.toJson_ne_null (s : Stmt) : s.toJson ≠ .null := by
  cases s <;> exact Json.noConfusion

section

variable {stmt : Json → Option Stmt} {items : List Json} {body : List Stmt}

theorem readBlock_object (h : items.mapM stmt = some body) :
    readBlock stmt (.object [("statements", .array items)]) = some body := by
  simp [readBlock, allFields?_object, list?, h]

theorem readFinal_object (h : items.mapM stmt = some body) :
    readFinal stmt (.object [("body", .object [("statements", .array items)])]) = some body := by
  simp [readFinal, allFields?_object, readBlock_object h]

theorem readCatchType_object (name : String) :
    readCatchType (.object [("type_name", .string name)]) = some name := by
  simp [readCatchType, allFields?_object, string?]

theorem readDeclarator_object (name : String) (initializer : Expr) :
    readDeclarator (.object [("name", .string name), ("initializer", initializer.toJson)]) =
      some (name, initializer) := by
  simp [readDeclarator, allFields?_object, string?, initializer.ofJson_toJson]

theorem Conditional.read_toJson {condition : Expr} {body : Stmt} {rest : Else} {o : Option Else}
    (hb : stmt body.toJson = some body)
    (hr : optional? (fun w => (stmt w).bind Else.ofStmt) rest.toJson = some o)
    (ho : o.getD .absent = rest) :
    Conditional.read stmt (conditionalToJson condition body rest) =
      some (.conditional condition body rest) := by
  simp [Conditional.read, conditionalToJson, allFields?_object, condition.ofJson_toJson, hb, hr, ho]

theorem Stmt.read_tagged (tag : String) (content : Json) :
    Stmt.read stmt (.tagged tag content) = Stmt.readCase stmt tag content := by
  simp [Stmt.read, tagged, variant?]

end

mutual

theorem Stmt.readAt_toJson {d : Nat} (s : Stmt) (h : s.toJson.depth < d) :
    Stmt.readAt d s.toJson = some s := by
  obtain ⟨d, rfl⟩ : ∃ n, d = n + 1 := ⟨d - 1, by omega⟩
  rw [Stmt.readAt]
  cases s with
  | breakLoop | continueLoop => rfl
  | expr e => simp [Stmt.toJson, Stmt.read_tagged, Stmt.readCase, e.ofJson_toJson]
  | ret value =>
    simp [Stmt.toJson, Stmt.read_tagged, Stmt.readCase, optional?_ofJson_optExprToJson]
  | declare typeName name initializer =>
    simp [Stmt.toJson, Stmt.read_tagged, Stmt.readCase, allFields?_object, string?,
      readDeclarator_object]
  | block body =>
    simp only [Stmt.toJson, tagged, depth, depthOfMembers, depthOfMember] at h
    have hb := readBlock_object (mapM_stmtsToJson (d := d) body (by omega))
    simp [Stmt.toJson, Stmt.read_tagged, Stmt.readCase, hb]
  | method signature body =>
    simp only [Stmt.toJson, tagged, depth, depthOfMembers, depthOfMember] at h
    have hb := readBlock_object (mapM_stmtsToJson (d := d) body (by omega))
    have hp := list?_map Parameter.ofJson_toJson signature.parameters
    have hm := list?_map (f := string?) (g := .string) (fun _ => rfl) signature.modifiers
    have ha := list?_map Attribute.ofJson_toJson signature.attributes
    simp [Stmt.toJson, Stmt.read_tagged, Stmt.readCase, allFields?_object, string?, hb, hp, hm, ha]
  | conditional condition body rest =>
    simp only [Stmt.toJson, tagged, depth, depthOfMembers, depthOfMember] at h
    have hb := body.readAt_toJson (d := d) (by omega)
    obtain ⟨o, hr, ho⟩ := rest.optional?_toJson (d := d) (by omega)
    exact Conditional.read_toJson hb hr ho
  | forLoop initializer condition step body =>
    simp only [Stmt.toJson, tagged, depth, depthOfMembers, depthOfMember] at h
    have hi := optional?_optStmtToJson (d := d) initializer (by omega)
    have hb := body.readAt_toJson (d := d) (by omega)
    simp [Stmt.toJson, Stmt.read_tagged, Stmt.readCase, allFields?_object,
      optional?_ofJson_optExprToJson, hi, hb]
  | forEach item iterable body =>
    simp only [Stmt.toJson, tagged, depth, depthOfMembers, depthOfMember] at h
    have hb := body.readAt_toJson (d := d) (by omega)
    simp [Stmt.toJson, Stmt.read_tagged, Stmt.readCase, allFields?_object, string?,
      iterable.ofJson_toJson, hb]
  | whileLoop condition body =>
    simp only [Stmt.toJson, tagged, depth, depthOfMembers, depthOfMember] at h
    have hb := body.readAt_toJson (d := d) (by omega)
    simp [Stmt.toJson, Stmt.read_tagged, Stmt.readCase, allFields?_object, condition.ofJson_toJson,
      hb]
  | guarded body catches final =>
    simp only [Stmt.toJson, tagged, depth, depthOfMembers, depthOfMember] at h
    have hb := readBlock_object (mapM_stmtsToJson (d := d) body (by omega))
    have hc := mapM_catchesToJson (d := d) catches (by omega)
    have hf := optional?_finalToJson (d := d) final (by omega)
    simp [Stmt.toJson, Stmt.read_tagged, Stmt.readCase, allFields?_object, list?, hb, hc, hf]
termination_by structural s

theorem Else.optional?_toJson {d : Nat} (r : Else) (h : r.toJson.depth < d) :
    ∃ o, optional? (fun w => (Stmt.readAt d w).bind Else.ofStmt) r.toJson = some o ∧
      o.getD .absent = r := by
  cases r with
  | absent => exact ⟨none, rfl, rfl⟩
  | elseIf condition body rest =>
    obtain ⟨d, rfl⟩ : ∃ n, d = n + 1 := ⟨d - 1, by omega⟩
    simp only [Else.toJson, tagged, depth, depthOfMembers, depthOfMember] at h
    have hb := body.readAt_toJson (d := d) (by omega)
    obtain ⟨o, hr, ho⟩ := rest.optional?_toJson (d := d) (by omega)
    -- The branch is written as the conditional that it would be on its own.
    have hc : Stmt.readAt (d + 1) (Else.elseIf condition body rest).toJson =
        some (.conditional condition body rest) := Conditional.read_toJson hb hr ho
    refine ⟨some (.elseIf condition body rest), ?_, rfl⟩
    rw [optional?_of_ne_null (by exact Json.noConfusion), hc]
    rfl
  | block body =>
    obtain ⟨d, rfl⟩ : ∃ n, d = n + 1 := ⟨d - 1, by omega⟩
    simp only [Else.toJson, tagged, depth, depthOfMembers, depthOfMember] at h
    have hb := readBlock_object (mapM_stmtsToJson (d := d) body (by omega))
    have hs : Stmt.readAt (d + 1) (Else.block body).toJson = some (.block body) := by
      simp [Stmt.readAt, Else.toJson, Stmt.read_tagged, Stmt.readCase, hb]
    refine ⟨some (.block body), ?_, rfl⟩
    rw [optional?_of_ne_null (by exact Json.noConfusion), hs]
    rfl
termination_by structural r

theorem Catch.readAt_toJson {d : Nat} (c : Catch) (h : c.toJson.depth < d) :
    Catch.read (Stmt.readAt d) c.toJson = some c := by
  obtain ⟨typeName, body⟩ := c
  simp only [Catch.toJson, depth, depthOfMembers, depthOfMember] at h
  have hb := readBlock_object (mapM_stmtsToJson (d := d) body (by omega))
  have ht := optional?_ofOption (fun name => ⟨Json.noConfusion, readCatchType_object name⟩) typeName
  simp [Catch.read, Catch.toJson, allFields?_object, hb, ht]
termination_by structural c

theorem optional?_optStmtToJson {d : Nat} (s : Option Stmt) (h : (optStmtToJson s).depth < d) :
    optional? (Stmt.readAt d) (optStmtToJson s) = some s := by
  cases s with
  | none => rfl
  | some s =>
    have hs := s.readAt_toJson h
    rw [optStmtToJson, optional?_of_ne_null s.toJson_ne_null, hs]
    rfl
termination_by structural s

theorem mapM_stmtsToJson {d : Nat} (ss : List Stmt) (h : depthOfItems (stmtsToJson ss) < d) :
    (stmtsToJson ss).mapM (Stmt.readAt d) = some ss := by
  cases ss with
  | nil => rfl
  | cons s ss =>
    obtain ⟨hs, hss⟩ := depthOfItems_cons_lt.mp h
    simp [stmtsToJson, List.mapM_cons, s.readAt_toJson hs, mapM_stmtsToJson ss hss]
termination_by structural ss

theorem optional?_finalToJson {d : Nat} (final : Option (List Stmt))
    (h : (finalToJson final).depth < d) :
    optional? (readFinal (Stmt.readAt d)) (finalToJson final) = some final := by
  cases final with
  | none => rfl
  | some body =>
    simp only [finalToJson, depth, depthOfMembers, depthOfMember] at h
    have hb := readFinal_object (mapM_stmtsToJson (d := d) body (by omega))
    rw [finalToJson, optional?_of_ne_null (by exact Json.noConfusion), hb]
    rfl
termination_by structural final

theorem mapM_catchesToJson {d : Nat} (cs : List Catch) (h : depthOfItems (catchesToJson cs) < d) :
    (catchesToJson cs).mapM (Catch.read (Stmt.readAt d)) = some cs := by
  cases cs with
  | nil => rfl
  | cons c cs =>
    obtain ⟨hc, hcs⟩ := depthOfItems_cons_lt.mp h
    simp [catchesToJson, List.mapM_cons, c.readAt_toJson hc, mapM_catchesToJson cs hcs]
termination_by structural cs

end

theorem Stmt.ofJson_toJson (s : Stmt) : Stmt.ofJson s.toJson = some s :=
  s.readAt_toJson (Nat.lt_succ_self _)

theorem Node.ofJson_toJson (n : Node) : Node.ofJson n.toJson = some n := by
  cases n with
  | stmt s => simp [Node.ofJson, Node.toJson, tagged, variant?, s.ofJson_toJson]
  | expr e => simp [Node.ofJson, Node.toJson, tagged, variant?, e.ofJson_toJson]

variable {bound : Nat}

theorem Parameter.numbersBelow_toJson (p : Parameter) : p.toJson.NumbersBelow bound :=
  ⟨numbersBelow_ofOption_string p.typeName, trivial, trivial⟩

theorem Attribute.numbersBelow_toJson (a : Attribute) : a.toJson.NumbersBelow bound :=
  ⟨trivial, ⟨itemsBelow_argumentsToJson a.arguments, trivial⟩, trivial⟩

mutual

theorem Stmt.numbersBelow_toJson (s : Stmt) : s.toJson.NumbersBelow bound := by
  cases s with
  | breakLoop | continueLoop => trivial
  | expr e => exact ⟨e.numbersBelow_toJson, trivial⟩
  | declare _ _ e => exact ⟨⟨trivial, ⟨trivial, e.numbersBelow_toJson, trivial⟩, trivial⟩, trivial⟩
  | ret value => exact ⟨numbersBelow_optExprToJson value, trivial⟩
  | block body => exact ⟨⟨itemsBelow_stmtsToJson body, trivial⟩, trivial⟩
  | method signature body =>
    have hp : ItemsBelow bound (signature.parameters.map (·.toJson)) :=
      itemsBelow_map Parameter.numbersBelow_toJson signature.parameters
    have hm : ItemsBelow bound (signature.modifiers.map .string) :=
      itemsBelow_map (fun _ => by trivial) signature.modifiers
    have ha : ItemsBelow bound (signature.attributes.map (·.toJson)) :=
      itemsBelow_map Attribute.numbersBelow_toJson signature.attributes
    exact ⟨⟨trivial, hp, ⟨itemsBelow_stmtsToJson body, trivial⟩, hm, ha, trivial⟩, trivial⟩
  | conditional condition body rest =>
    exact ⟨⟨condition.numbersBelow_toJson, body.numbersBelow_toJson, rest.numbersBelow_toJson,
      trivial⟩, trivial⟩
  | forLoop initializer condition step body =>
    exact ⟨⟨numbersBelow_optStmtToJson initializer, numbersBelow_optExprToJson condition,
      numbersBelow_optExprToJson step, body.numbersBelow_toJson, trivial⟩, trivial⟩
  | forEach _ e body =>
    exact ⟨⟨trivial, e.numbersBelow_toJson, body.numbersBelow_toJson, trivial⟩, trivial⟩
  | whileLoop e body =>
    exact ⟨⟨e.numbersBelow_toJson, body.numbersBelow_toJson, trivial⟩, trivial⟩
  | guarded body catches final =>
    exact ⟨⟨⟨itemsBelow_stmtsToJson body, trivial⟩, itemsBelow_catchesToJson catches,
      numbersBelow_finalToJson final, trivial⟩, trivial⟩
termination_by structural s

theorem Else.numbersBelow_toJson (r : Else) : r.toJson.NumbersBelow bound := by
  cases r with
  | absent => trivial
  | elseIf condition body rest =>
    exact ⟨⟨condition.numbersBelow_toJson, body.numbersBelow_toJson, rest.numbersBelow_toJson,
      trivial⟩, trivial⟩
  | block body => exact ⟨⟨itemsBelow_stmtsToJson body, trivial⟩, trivial⟩
termination_by structural r

theorem Catch.numbersBelow_toJson (c : Catch) : c.toJson.NumbersBelow bound := by
  obtain ⟨typeName, body⟩ := c
  refine ⟨numbersBelow_ofOption (fun name => ?_) typeName,
    ⟨itemsBelow_stmtsToJson body, trivial⟩, trivial⟩
  exact ⟨trivial, trivial⟩
termination_by structural c

theorem numbersBelow_optStmtToJson (s : Option Stmt) : (optStmtToJson s).NumbersBelow bound := by
  cases s with
  | none => trivial
  | some s => exact s.numbersBelow_toJson
termination_by structural s

theorem itemsBelow_stmtsToJson (ss : List Stmt) : ItemsBelow bound (stmtsToJson ss) := by
  cases ss with
  | nil => trivial
  | cons s ss => exact ⟨s.numbersBelow_toJson, itemsBelow_stmtsToJson ss⟩
termination_by structural ss

theorem numbersBelow_finalToJson (final : Option (List Stmt)) :
    (finalToJson final).NumbersBelow bound := by
  cases final with
  | none => trivial
  | some body => exact ⟨⟨itemsBelow_stmtsToJson body, trivial⟩, trivial⟩
termination_by structural final

theorem itemsBelow_catchesToJson (cs : List Catch) : ItemsBelow bound (catchesToJson cs) := by
  cases cs with
  | nil => trivial
  | cons c cs => exact ⟨c.numbersBelow_toJson, itemsBelow_catchesToJson cs⟩
termination_by structural cs

end

theorem Node.numbersBelow_toJson (n : Node) : n.toJson.NumbersBelow bound := by
  cases n with
  | stmt s => exact ⟨s.numbersBelow_toJson, trivial⟩
  | expr e => exact ⟨e.numbersBelow_toJson, trivial⟩

/-- The JSON text of a tree that nests no deeper than is read gives that tree. -/
theorem Node.decodeText_print {n : Node} (h : n.toJson.depth ≤ nestingLimit) :
    decodeText (orMisshapen ofJson) n.toJson.print = .ok n := by
  have hn : n.toJson.NumbersBelow 0 := n.numbersBelow_toJson
  simp only [decodeText, parse_print h hn, orMisshapen, n.ofJson_toJson]

def escapedReturn : Node :=
  .stmt (.method ⟨"f", [⟨none, "p"⟩], ["public"], [⟨"A", [⟨some "n", none⟩]⟩]⟩
    [.expr (.string "\"quoted\" \\ back\nline\ttab\x08\x0c\x01\x1f é λ 😀"),
      .conditional (.identifier "c") (.block []) (.elseIf (.literal "") .breakLoop .absent),
      .guarded [.ret none] [⟨none, []⟩, ⟨some "E", [.continueLoop]⟩] none])

theorem decodeText_print_escapedReturn : escapedReturn.toJson.depth ≤ nestingLimit ∧
    decodeText (orMisshapen Node.ofJson) escapedReturn.toJson.print = .ok escapedReturn := by
  have h : escapedReturn.toJson.depth ≤ nestingLimit := by decide
  exact ⟨h, Node.decodeText_print h⟩

end Interlingua
