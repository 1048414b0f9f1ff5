import Interlingua.Proofs.Reached

namespace Interlingua.Host

open Recorded

variable {policy : ReadPolicy} {ms : List Mention} {ds : List Diagnostic} {block : Ast}
  {declared : List ParamDecl} {statements : List Ast}

/-- The blocks of a guarded statement, and the last branch of a conditional. -/
def Kind.HasBlock : Kind → Ast → Prop
  | .tryStatement body catches final, b =>
    b = body ∨ (∃ clause ∈ catches, b = clause.body) ∨ final = some b
  | .ifStatement _ elseClause, b => elseClause = some b
  | _, _ => False

theorem Kind.block_of_child {k : Kind} (h : ⟨.block, block⟩ ∈ k.children) :
    (∃ name parameters, k = .function name parameters block) ∨ k.HasBlock block := by
  cases k with
  | command elements => cases elements <;> simp [Kind.children] at h
  | _ => simp [Kind.children, Kind.HasBlock] at h ⊢ <;> grind

theorem ReadsTo.function {place : Place} {extent : Extent} {name : String}
    {parameters : List ParamDecl} {body : Ast}
    (h : ReadsTo policy ⟨place, ⟨extent, .function name parameters body⟩⟩ ms ds) :
    .unsupported ⟨"FunctionDefinition", extent⟩ ∈ ds ∨
      .method name (settleDuplicates policy
        ((parameters ++ body.bodyParameters).map (·.toParameter))) ∈ ms := by
  have hmethod {s : Stmt} {ds : List Diagnostic}
      (h : Ast.toStmt policy ⟨extent, .function name parameters body⟩ = .ok (s, ds)) :
      .method name (settleDuplicates policy
        ((parameters ++ body.bodyParameters).map (·.toParameter))) ∈ s.mentions := by
    obtain ⟨b, ds₁, _, -, h₁, rfl⟩ := bind_eq_ok h
    cases h₁
    exact List.mem_cons_self
  cases h with
  | statement h => exact .inr (hmethod h)
  | block h =>
    obtain ⟨s, ds₁, _, hs, h₁, rfl⟩ := bind_eq_ok h
    cases h₁
    rw [Stmt.allMentions_statements]
    exact .inr (hmethod hs)
  | value h => exact .inl (mem_of_unsupported h)
  | element h =>
    obtain ⟨e, ds₁, _, he, h₁, rfl⟩ := bind_eq_ok h
    exact .inl (List.mem_append_left _ (mem_of_unsupported he))

/-- A script block with parameters is reported as a whole where a value is asked for, and its
parameters are where a statement is. -/
theorem ReadsTo.scriptBlock {place : Place} {extent : Extent}
    (h : ReadsTo policy ⟨place, ⟨extent, .scriptBlock (some declared) statements⟩⟩ ms ds)
    (hd : declared ≠ []) :
    .unsupported ⟨"ScriptBlock", extent⟩ ∈ ds ∨
      (policy.onUnsupported = .standIn ∧ .unsupported ⟨"ParamBlock", extent⟩ ∈ ds) ∨
      place = .block := by
  cases h with
  | statement h =>
    obtain ⟨noted, ds₁, _, hn, _, rfl⟩ := bind_eq_ok h
    cases declared with
    | nil => exact absurd rfl hd
    | cons p ps =>
      obtain ⟨e, ds₂, _, he, _, rfl⟩ := bind_eq_ok hn
      exact .inr (.inl ⟨standIn_of_unsupported he,
        List.mem_append_left _ (List.mem_append_left _ (mem_of_unsupported he))⟩)
  | block h => exact .inr (.inr rfl)
  | value h => exact .inl (mem_of_unsupported h)
  | element h =>
    obtain ⟨e, ds₁, _, he, h₁, rfl⟩ := bind_eq_ok h
    exact .inl (List.mem_append_left _ (mem_of_unsupported he))

/-- The parameters of a script block go to the method whose body the block is, or they are
reported, unless the block or a node above it is left out. They are lost where the block belongs to
a guarded statement or is a last branch. -/
theorem Ast.parameters_kept {root : Ast} {r : Reading} {above : List Ast} {place : Place}
    (h : root.toReading policy = .ok r) (hx : Below root above ⟨place, block⟩)
    (hblock : block.kind = .scriptBlock (some declared) statements) (hd : declared ≠ []) :
    (∃ a ∈ block :: above, a.Reported r.diagnostics ∨ a.MissesItem r.diagnostics) ∨
      (∃ owner rest name parameters, above = owner :: rest ∧
        owner.kind = .function name parameters block ∧
        .method name (settleDuplicates policy ((parameters ++ declared).map (·.toParameter))) ∈
          r.node.mentions) ∨
      (policy.onUnsupported = .standIn ∧
        .unsupported ⟨"ParamBlock", block.extent⟩ ∈ r.diagnostics) ∨
      ∃ owner rest, above = owner :: rest ∧ owner.kind.HasBlock block := by
  obtain ⟨extent, kind⟩ := block
  obtain rfl : kind = _ := hblock
  obtain ⟨a, ha, hout⟩ | ⟨found, recorded, hread, hsub, -⟩ := hx.found_of_toReading h
  · exact .inl ⟨a, List.mem_cons_of_mem _ ha, hout⟩
  obtain hwhole | ⟨hpolicy, hreport⟩ | rfl := hread.scriptBlock hd
  · exact .inl ⟨_, List.mem_cons_self, .inl (hsub hwhole)⟩
  · exact .inr (.inr (.inl ⟨hpolicy, hsub hreport⟩))
  -- A block stands below its owner, which has been read itself.
  cases hx with
  | @child above x _ hx hc =>
    obtain ⟨name, parameters, hk⟩ | hk := Kind.block_of_child hc
    · obtain ⟨place, owner, ownerKind⟩ := x
      obtain rfl : ownerKind = _ := hk
      obtain ⟨a, ha, hout⟩ | ⟨found, recorded, hread, hsub, hlast⟩ := hx.found_of_toReading h
      · exact .inl ⟨a, List.mem_cons_of_mem _ (List.mem_cons_of_mem _ ha), hout⟩
      · obtain hwhole | hmethod := hread.function
        · exact .inl ⟨_, List.mem_cons_of_mem _ List.mem_cons_self, .inl (hsub hwhole)⟩
        · exact .inr (.inl ⟨_, above, name, parameters, rfl, rfl, hlast _ hmethod trivial⟩)
    · exact .inr (.inr (.inr ⟨_, above, rfl, hk⟩))

def declaredP : List ParamDecl := [⟨{}, "$p", none⟩]

def bodyWithP : Ast := .ofKind (.scriptBlock (some declaredP) [])

def functionWithP : Ast := .ofKind (.function "F" [⟨{}, "q", some "int"⟩] bodyWithP)

theorem functionWithP_kept :
    Below (.script [functionWithP]) [functionWithP, .script [functionWithP]] ⟨.block, bodyWithP⟩ ∧
      bodyWithP.kind = .scriptBlock (some declaredP) [] ∧ declaredP ≠ [] ∧
      ∃ r, (Ast.script [functionWithP]).toReading ⟨.stop, .keepLast⟩ = .ok r ∧
        ((∃ a ∈ [bodyWithP, functionWithP, .script [functionWithP]],
            a.Reported r.diagnostics ∨ a.MissesItem r.diagnostics) ∨
          (∃ owner rest name parameters,
            [functionWithP, .script [functionWithP]] = owner :: rest ∧
            owner.kind = .function name parameters bodyWithP ∧
            .method name (settleDuplicates ⟨.stop, .keepLast⟩
              ((parameters ++ declaredP).map (·.toParameter))) ∈ r.node.mentions) ∨
          (OnUnsupported.stop = .standIn ∧
            .unsupported ⟨"ParamBlock", bodyWithP.extent⟩ ∈ r.diagnostics) ∨
          ∃ owner rest, [functionWithP, .script [functionWithP]] = owner :: rest ∧
            owner.kind.HasBlock bodyWithP) := by
  have below : Below (.script [functionWithP]) [functionWithP, .script [functionWithP]]
      ⟨.block, bodyWithP⟩ :=
    .child (x := ⟨.statement, functionWithP⟩) (.child .root (.head _)) (.head _)
  have declared : declaredP ≠ [] := by decide
  obtain ⟨r, h⟩ : ∃ r, (Ast.script [functionWithP]).toReading ⟨.stop, .keepLast⟩ = .ok r := ⟨_, rfl⟩
  exact ⟨below, rfl, declared, r, h, Ast.parameters_kept h below rfl declared⟩

/-- `try { param($p) }` -/
def guardedParameters : Ast :=
  ⟨⟨1, 1, 1, 18, "try \x7b param($p) \x7d"⟩, .tryStatement
    ⟨⟨1, 5, 1, 18, "\x7b param($p) \x7d"⟩, .scriptBlock (some [⟨{}, "$p", none⟩]) []⟩ [] none⟩

theorem guardedParameters_dropped :
    Below guardedParameters [guardedParameters]
        ⟨.block, ⟨⟨1, 5, 1, 18, "\x7b param($p) \x7d"⟩,
          .scriptBlock (some [⟨{}, "$p", none⟩]) []⟩⟩ ∧
      (∀ name parameters body, guardedParameters.kind ≠ .function name parameters body) ∧
      ∃ r, guardedParameters.toReading ⟨.stop, .keepLast⟩ = .ok r ∧ r.diagnostics = [] :=
  ⟨.child .root (.head _), nofun, _, rfl, rfl⟩

end Interlingua.Host
