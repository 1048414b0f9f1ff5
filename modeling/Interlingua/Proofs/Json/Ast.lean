import Interlingua.Proofs.Json.Fields
import Interlingua.Proofs.Json.PassedOver
import Interlingua.Proofs.Relabel

namespace Interlingua

open Json

theorem Extent.ofJson_toJson (e : Extent) : Extent.ofJson e.toJson = some e := by
  have hposition (n : UInt32) : positionOfJson (positionToJson n) = some n := by
    simp [positionOfJson, positionToJson, natural?, UInt32.toNat_lt_size]
  simp [Extent.ofJson, Extent.toJson, fields?_object, string?, hposition]

theorem Extent.numbersBelow_toJson {bound : Nat} (h : UInt32.size ≤ bound) (e : Extent) :
    e.toJson.NumbersBelow bound := by
  have hposition (n : UInt32) : (positionToJson n).NumbersBelow bound :=
    Nat.lt_of_lt_of_le n.toNat_lt h
  exact ⟨hposition _, hposition _, hposition _, hposition _, trivial, trivial⟩

namespace Host

def Relabeling.printing : Relabeling where
  node kind extent := kind.printedExtent extent

/-- The tree as far as it is written. -/
def Ast.printed (a : Ast) : Ast := a.relabel Relabeling.printing

theorem ParamDecl.relabel_printing : ParamDecl.relabel .printing = id := rfl

theorem ParamDecl.ofJson_toJson (p : ParamDecl) : ParamDecl.ofJson p.toJson = some p := by
  simp [ParamDecl.ofJson, ParamDecl.toJson, typeNameToJson, fields?_object, string?,
    p.extent.ofJson_toJson]

theorem paramBlockOfJson_toJson (block : Option (List ParamDecl)) :
    optional? paramBlockOfJson (paramBlockToJson block) = some block := by
  refine optional?_ofOption (fun ps => ⟨Json.noConfusion, ?_⟩) block
  simp [paramBlockOfJson, fields?_object, list?_map ParamDecl.ofJson_toJson]

theorem ParamDecl.numbersBelow_toJson {bound : Nat} (h : UInt32.size ≤ bound) (p : ParamDecl) :
    p.toJson.NumbersBelow bound :=
  ⟨p.extent.numbersBelow_toJson h, trivial, numbersBelow_ofOption_string _, trivial⟩

theorem numbersBelow_paramBlockToJson {bound : Nat} (h : UInt32.size ≤ bound)
    (block : Option (List ParamDecl)) : (paramBlockToJson block).NumbersBelow bound := by
  refine numbersBelow_ofOption (fun ps => ?_) block
  exact ⟨itemsBelow_map (ParamDecl.numbersBelow_toJson h) ps, trivial⟩

theorem Kind.members?_members (k : Kind) (extent : Json) (keys : List String) :
    members? keys (.object (("type", .string k.name) :: ("extent", extent) :: k.fieldsToJson)) =
      some (("type", .string k.name) :: ("extent", extent) :: k.fieldsToJson) := by
  refine members?_object ?_ keys
  cases k <;> simp [Kind.fieldsToJson]

theorem Ast.toJson_ne_null (a : Ast) : a.toJson ≠ .null := by
  obtain ⟨extent, kind⟩ := a
  exact Json.noConfusion

mutual

theorem Ast.readAt_toJson {d : Nat} (a : Ast) (h : a.toJson.depth < d) :
    Ast.readAt d a.toJson = some a.printed := by
  obtain ⟨d, rfl⟩ : ∃ n, d = n + 1 := ⟨d - 1, by omega⟩
  obtain ⟨extent, kind⟩ := a
  simp only [Ast.toJson, depth, depthOfMembers, depthOfMember] at h
  have hk := kind.read_fieldsToJson (d := d) (kind.printedExtent extent).toJson (by omega)
  have he := (kind.printedExtent extent).ofJson_toJson
  simp [Ast.readAt, Ast.read, Ast.toJson, Kind.members?_members, Kind.nameOfJson, he, hk]
  rfl
termination_by structural a

theorem Kind.read_fieldsToJson {d : Nat} (k : Kind) (extent : Json)
    (h : depthOfMembers k.fieldsToJson < d) :
    Kind.read (Ast.readAt d) k.name
        (.object (("type", .string k.name) :: ("extent", extent) :: k.fieldsToJson)) =
      some (k.relabel .printing) := by
  unfold Kind.read
  cases k with
  | breakStatement | continueStatement | switchStatement | hashtable | scriptBlockExpression
  | unknown => rfl
  | constant value | stringConstant value | expandableString value | var value
  | typeExpression value =>
    dsimp only [Kind.name, Kind.fieldsToJson]
    simp [members?_object, string?, Kind.relabel]
  | parameter name typeName =>
    dsimp only [Kind.name, Kind.fieldsToJson]
    simp [members?_object, string?, typeNameToJson, Kind.relabel]
  | statementBlock as | pipeline as | command as | subExpression as | arrayLiteral as
  | arrayExpression as =>
    dsimp only [Kind.name, Kind.fieldsToJson, depthOfMembers, depthOfMember, depth] at h ⊢
    have has := mapM_astsToJson (d := d) as (by omega)
    simp [members?_object, list?, Kind.relabel, has]
  | commandExpression a | paren a =>
    dsimp only [Kind.name, Kind.fieldsToJson, depthOfMembers, depthOfMember] at h ⊢
    have ha := a.readAt_toJson (d := d) (by omega)
    simp [members?_object, Kind.relabel, ha, Ast.printed]
  | returnStatement a | throwStatement a =>
    dsimp only [Kind.name, Kind.fieldsToJson, depthOfMembers, depthOfMember] at h ⊢
    have ha := optional?_optAstToJson (d := d) a (by omega)
    simp [members?_object, Kind.relabel, ha]
  | unary text a | convert text a | member a text _ =>
    dsimp only [Kind.name, Kind.fieldsToJson, depthOfMembers, depthOfMember] at h ⊢
    have ha := a.readAt_toJson (d := d) (by omega)
    simp [members?_object, string?, bool?, Kind.relabel, ha, Ast.printed, Relabeling.printing]
  | commandParameter name a =>
    dsimp only [Kind.name, Kind.fieldsToJson, depthOfMembers, depthOfMember] at h ⊢
    have ha := optional?_optAstToJson (d := d) a (by omega)
    simp [members?_object, string?, Kind.relabel, ha]
  | assignment a text b | binary a text b =>
    dsimp only [Kind.name, Kind.fieldsToJson, depthOfMembers, depthOfMember] at h ⊢
    have ha := a.readAt_toJson (d := d) (by omega)
    have hb := b.readAt_toJson (d := d) (by omega)
    simp [members?_object, string?, Kind.relabel, ha, hb, Ast.printed, Relabeling.printing]
  | whileStatement a b | index a b | doWhile a b | doUntil a b =>
    dsimp only [Kind.name, Kind.fieldsToJson, depthOfMembers, depthOfMember] at h ⊢
    have ha := a.readAt_toJson (d := d) (by omega)
    have hb := b.readAt_toJson (d := d) (by omega)
    simp [members?_object, Kind.relabel, ha, hb, Ast.printed]
  | scriptBlock block as =>
    dsimp only [Kind.name, Kind.fieldsToJson, depthOfMembers, depthOfMember, depth] at h ⊢
    have has := mapM_astsToJson (d := d) as (by omega)
    simp [members?_object, list?, Kind.relabel, has, paramBlockOfJson_toJson,
      ParamDecl.relabel_printing]
  | ifStatement clauses a =>
    dsimp only [Kind.name, Kind.fieldsToJson, depthOfMembers, depthOfMember, depth] at h ⊢
    have hc := mapM_clausesToJson (d := d) clauses (by omega)
    have ha := optional?_optAstToJson (d := d) a (by omega)
    simp [members?_object, list?, Kind.relabel, hc, ha]
  | forStatement initializer condition step body =>
    dsimp only [Kind.name, Kind.fieldsToJson, depthOfMembers, depthOfMember] at h ⊢
    have hi := optional?_optAstToJson (d := d) initializer (by omega)
    have hc := optional?_optAstToJson (d := d) condition (by omega)
    have hs := optional?_optAstToJson (d := d) step (by omega)
    have hb := body.readAt_toJson (d := d) (by omega)
    simp [members?_object, Kind.relabel, hi, hc, hs, hb, Ast.printed]
  | forEachStatement item condition body =>
    dsimp only [Kind.name, Kind.fieldsToJson, depthOfMembers, depthOfMember] at h ⊢
    have hi := item.readAt_toJson (d := d) (by omega)
    have hc := condition.readAt_toJson (d := d) (by omega)
    have hb := body.readAt_toJson (d := d) (by omega)
    simp [members?_object, Kind.relabel, hi, hc, hb, Ast.printed]
  | tryStatement body catches final =>
    dsimp only [Kind.name, Kind.fieldsToJson, depthOfMembers, depthOfMember, depth] at h ⊢
    have hb := body.readAt_toJson (d := d) (by omega)
    have hc := mapM_catchesToJson (d := d) catches (by omega)
    have hf := optional?_optAstToJson (d := d) final (by omega)
    simp [members?_object, list?, Kind.relabel, hb, hc, hf, Ast.printed]
  | function name parameters body =>
    dsimp only [Kind.name, Kind.fieldsToJson, depthOfMembers, depthOfMember] at h ⊢
    have hp := list?_map ParamDecl.ofJson_toJson parameters
    have hb := body.readAt_toJson (d := d) (by omega)
    simp [members?_object, string?, Kind.relabel, hp, hb, Ast.printed, ParamDecl.relabel_printing]
  | invokeMember expression text arguments _ =>
    dsimp only [Kind.name, Kind.fieldsToJson, depthOfMembers, depthOfMember, depth] at h ⊢
    have he := expression.readAt_toJson (d := d) (by omega)
    have ha := mapM_astsToJson (d := d) arguments (by omega)
    simp [members?_object, string?, bool?, list?, Kind.relabel, he, ha, Ast.printed]
termination_by structural k

theorem IfClause.readAt_toJson {d : Nat} (c : IfClause) (h : c.toJson.depth < d) :
    IfClause.read (Ast.readAt d) c.toJson = some (c.relabel .printing) := by
  obtain ⟨condition, body⟩ := c
  simp only [IfClause.toJson, depth, depthOfMembers, depthOfMember] at h
  have hc := condition.readAt_toJson (d := d) (by omega)
  have hb := body.readAt_toJson (d := d) (by omega)
  simp [IfClause.read, IfClause.toJson, fields?_object, IfClause.relabel, hc, hb, Ast.printed]
termination_by structural c

theorem CatchClause.readAt_toJson {d : Nat} (c : CatchClause) (h : c.toJson.depth < d) :
    CatchClause.read (Ast.readAt d) c.toJson = some (c.relabel .printing) := by
  obtain ⟨extent, types, body⟩ := c
  simp only [CatchClause.toJson, depth, depthOfMembers, depthOfMember] at h
  have hb := body.readAt_toJson (d := d) (by omega)
  have ht := list?_map (f := string?) (g := .string) (fun _ => rfl) types
  simp [CatchClause.read, CatchClause.toJson, fields?_object, CatchClause.relabel,
    extent.ofJson_toJson, ht, hb, Ast.printed, Relabeling.printing]
termination_by structural c

theorem mapM_astsToJson {d : Nat} (as : List Ast) (h : depthOfItems (astsToJson as) < d) :
    (astsToJson as).mapM (Ast.readAt d) = some (Ast.allRelabel .printing as) := by
  cases as with
  | nil => rfl
  | cons a as =>
    obtain ⟨ha, has⟩ := depthOfItems_cons_lt.mp h
    simp [astsToJson, List.mapM_cons, a.readAt_toJson ha, mapM_astsToJson as has]
    rfl
termination_by structural as

theorem optional?_optAstToJson {d : Nat} (a : Option Ast) (h : (optAstToJson a).depth < d) :
    optional? (Ast.readAt d) (optAstToJson a) = some (Ast.optRelabel .printing a) := by
  cases a with
  | none => rfl
  | some a =>
    have ha := a.readAt_toJson h
    rw [optAstToJson, optional?_of_ne_null a.toJson_ne_null, ha]
    rfl
termination_by structural a

theorem mapM_clausesToJson {d : Nat} (cs : List IfClause)
    (h : depthOfItems (clausesToJson cs) < d) :
    (clausesToJson cs).mapM (IfClause.read (Ast.readAt d)) =
      some (IfClause.allRelabel .printing cs) := by
  cases cs with
  | nil => rfl
  | cons c cs =>
    obtain ⟨hc, hcs⟩ := depthOfItems_cons_lt.mp h
    simp [clausesToJson, List.mapM_cons, c.readAt_toJson hc, mapM_clausesToJson cs hcs]
    rfl
termination_by structural cs

theorem mapM_catchesToJson {d : Nat} (cs : List CatchClause)
    (h : depthOfItems (catchesToJson cs) < d) :
    (catchesToJson cs).mapM (CatchClause.read (Ast.readAt d)) =
      some (CatchClause.allRelabel .printing cs) := by
  cases cs with
  | nil => rfl
  | cons c cs =>
    obtain ⟨hc, hcs⟩ := depthOfItems_cons_lt.mp h
    simp [catchesToJson, List.mapM_cons, c.readAt_toJson hc, mapM_catchesToJson cs hcs]
    rfl
termination_by structural cs

end

theorem Ast.ofJson_toJson (a : Ast) : Ast.ofJson a.toJson = some a.printed :=
  a.readAt_toJson (Nat.lt_succ_self _)

variable {bound : Nat}

mutual

theorem Ast.numbersBelow_toJson (h : UInt32.size ≤ bound) (a : Ast) :
    a.toJson.NumbersBelow bound := by
  obtain ⟨extent, kind⟩ := a
  have he := (kind.printedExtent extent).numbersBelow_toJson h
  exact ⟨trivial, he, kind.membersBelow_fieldsToJson h⟩
termination_by structural a

theorem Kind.membersBelow_fieldsToJson (h : UInt32.size ≤ bound) (k : Kind) :
    MembersBelow bound k.fieldsToJson := by
  cases k with
  | breakStatement | continueStatement | switchStatement | hashtable | scriptBlockExpression
  | unknown => trivial
  | constant | stringConstant | expandableString | var | typeExpression =>
    exact ⟨trivial, trivial⟩
  | parameter name typeName => exact ⟨trivial, numbersBelow_ofOption_string typeName, trivial⟩
  | statementBlock as | pipeline as | command as | subExpression as | arrayLiteral as
  | arrayExpression as => exact ⟨itemsBelow_astsToJson h as, trivial⟩
  | commandExpression a | paren a => exact ⟨a.numbersBelow_toJson h, trivial⟩
  | unary _ a | convert _ a => exact ⟨trivial, a.numbersBelow_toJson h, trivial⟩
  | member a _ _ => exact ⟨a.numbersBelow_toJson h, trivial, trivial, trivial⟩
  | returnStatement a | throwStatement a => exact ⟨numbersBelow_optAstToJson h a, trivial⟩
  | commandParameter _ a => exact ⟨trivial, numbersBelow_optAstToJson h a, trivial⟩
  | assignment a _ b | binary a _ b =>
    exact ⟨a.numbersBelow_toJson h, trivial, b.numbersBelow_toJson h, trivial⟩
  | whileStatement a b | index a b | doWhile a b | doUntil a b =>
    exact ⟨a.numbersBelow_toJson h, b.numbersBelow_toJson h, trivial⟩
  | scriptBlock block as =>
    exact ⟨numbersBelow_paramBlockToJson h block, itemsBelow_astsToJson h as, trivial⟩
  | ifStatement clauses a =>
    exact ⟨itemsBelow_clausesToJson h clauses, numbersBelow_optAstToJson h a, trivial⟩
  | forStatement initializer condition step body =>
    exact ⟨numbersBelow_optAstToJson h initializer, numbersBelow_optAstToJson h condition,
      numbersBelow_optAstToJson h step, body.numbersBelow_toJson h, trivial⟩
  | forEachStatement item condition body =>
    exact ⟨item.numbersBelow_toJson h, condition.numbersBelow_toJson h,
      body.numbersBelow_toJson h, trivial⟩
  | tryStatement body catches final =>
    exact ⟨body.numbersBelow_toJson h, itemsBelow_catchesToJson h catches,
      numbersBelow_optAstToJson h final, trivial⟩
  | function name parameters body =>
    exact ⟨trivial, itemsBelow_map (ParamDecl.numbersBelow_toJson h) parameters,
      body.numbersBelow_toJson h, trivial⟩
  | invokeMember expression _ arguments _ =>
    exact ⟨expression.numbersBelow_toJson h, trivial, itemsBelow_astsToJson h arguments, trivial,
      trivial⟩
termination_by structural k

theorem IfClause.numbersBelow_toJson (h : UInt32.size ≤ bound) (c : IfClause) :
    c.toJson.NumbersBelow bound := by
  obtain ⟨condition, body⟩ := c
  exact ⟨condition.numbersBelow_toJson h, body.numbersBelow_toJson h, trivial⟩
termination_by structural c

theorem CatchClause.numbersBelow_toJson (h : UInt32.size ≤ bound) (c : CatchClause) :
    c.toJson.NumbersBelow bound := by
  obtain ⟨extent, types, body⟩ := c
  have ht : ItemsBelow bound (types.map .string) := itemsBelow_map (fun _ => by trivial) types
  exact ⟨extent.numbersBelow_toJson h, ht, body.numbersBelow_toJson h, trivial⟩
termination_by structural c

theorem itemsBelow_astsToJson (h : UInt32.size ≤ bound) (as : List Ast) :
    ItemsBelow bound (astsToJson as) := by
  cases as with
  | nil => trivial
  | cons a as => exact ⟨a.numbersBelow_toJson h, itemsBelow_astsToJson h as⟩
termination_by structural as

theorem numbersBelow_optAstToJson (h : UInt32.size ≤ bound) (a : Option Ast) :
    (optAstToJson a).NumbersBelow bound := by
  cases a with
  | none => trivial
  | some a => exact a.numbersBelow_toJson h
termination_by structural a

theorem itemsBelow_clausesToJson (h : UInt32.size ≤ bound) (cs : List IfClause) :
    ItemsBelow bound (clausesToJson cs) := by
  cases cs with
  | nil => trivial
  | cons c cs => exact ⟨c.numbersBelow_toJson h, itemsBelow_clausesToJson h cs⟩
termination_by structural cs

theorem itemsBelow_catchesToJson (h : UInt32.size ≤ bound) (cs : List CatchClause) :
    ItemsBelow bound (catchesToJson cs) := by
  cases cs with
  | nil => trivial
  | cons c cs => exact ⟨c.numbersBelow_toJson h, itemsBelow_catchesToJson h cs⟩
termination_by structural cs

end

theorem heededPosition_toJson (e : Extent) : heededPosition e.toJson = e.toJson := by
  simp [heededPosition, mapMembers, Extent.toJson, Extent.keys]

theorem heeded_toJson (a : Ast) : heeded a.toJson = a.toJson := by
  obtain ⟨extent, kind⟩ := a
  have hkind : kind.fieldsToJson.map (fun m =>
      (m.1, if m.1 = "extent" then heededPosition m.2 else m.2)) = kind.fieldsToJson := by
    cases kind <;> simp [Kind.fieldsToJson]
  simp [heeded, mapMembers, Ast.toJson, heededPosition_toJson, hkind]

/-- The JSON text of a tree that nests no deeper than is read gives that tree, with the default
position for parameters that stand as nodes. -/
theorem Ast.ofText_print {a : Ast} (h : a.toJson.depth ≤ nestingLimit) :
    Ast.ofText a.toJson.print = .ok a.printed := by
  have hn : a.toJson.NumbersBelow Text.doubleBound :=
    a.numbersBelow_toJson (by decide +kernel)
  rw [ofText_eq (parse_print h hn), heeded_toJson, if_pos (inRange_of_numbersBelow _ hn),
    orMisshapen, a.ofJson_toJson]

def strayParameter : Ast :=
  ⟨⟨1, 1, 4294967295, 2, "\"p\""⟩, .scriptBlock (some [⟨⟨1, 7, 1, 9, "$p"⟩, "p", none⟩])
    [⟨⟨2, 1, 2, 3, "$p"⟩, .parameter "p" (some "int")⟩,
      ⟨⟨3, 1, 3, 6, "é😀"⟩, .ifStatement [] (some ⟨{}, .unknown⟩)⟩]⟩

theorem ofText_print_strayParameter : strayParameter.toJson.depth ≤ nestingLimit ∧
    Ast.ofText strayParameter.toJson.print = .ok strayParameter.printed ∧
    strayParameter.printed =
      ⟨⟨1, 1, 4294967295, 2, "\"p\""⟩, .scriptBlock (some [⟨⟨1, 7, 1, 9, "$p"⟩, "p", none⟩])
        [⟨{}, .parameter "p" (some "int")⟩,
          ⟨⟨3, 1, 3, 6, "é😀"⟩, .ifStatement [] (some ⟨{}, .unknown⟩)⟩]⟩ := by
  have h : strayParameter.toJson.depth ≤ nestingLimit := by decide
  exact ⟨h, Ast.ofText_print h, rfl⟩

end Host

end Interlingua
