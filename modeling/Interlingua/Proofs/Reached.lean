import Interlingua.Proofs.Below
import Interlingua.Proofs.LeavesKept
import Interlingua.Proofs.MentionsKept

namespace Interlingua

/-- A mention that reading passes on: methods always, literals when no object is created. A string
may become the name of a command instead. -/
def Mention.Lasts (plain : Prop) : Mention → Prop
  | literal _ => plain
  | method .. => True
  | _ => False

namespace Host

open Recorded

def Ast.Reported (a : Ast) (ds : List Diagnostic) : Prop :=
  .unsupported ⟨a.kind.name, a.extent⟩ ∈ ds

/-- A loop whose item is no variable is left out, and of it only the item is reported. -/
def Ast.MissesItem (a : Ast) (ds : List Diagnostic) : Prop :=
  ∃ item condition body, a.kind = .forEachStatement item condition body ∧
    (∀ path, item.kind ≠ .var path) ∧ item.Reported ds

/-- The node is left out, with all below it. -/
def Ast.LeftOut (a : Ast) (ds : List Diagnostic) : Prop := a.Reported ds ∨ a.MissesItem ds

theorem Ast.LeftOut.mono {a : Ast} {ds es : List Diagnostic} (h : a.LeftOut ds) (hds : ds ⊆ es) :
    a.LeftOut es := by
  obtain h | ⟨item, condition, body, ha, hitem, h⟩ := h
  · exact .inl (hds h)
  · exact .inr ⟨item, condition, body, ha, hitem, hds h⟩

/-- A node, read in its place, mentions these texts and records these diagnostics. -/
inductive ReadsTo (policy : ReadPolicy) : Placed → List Mention → List Diagnostic → Prop
  | statement {a : Ast} {s : Stmt} {ds : List Diagnostic} :
    a.toStmt policy = .ok (s, ds) → ReadsTo policy ⟨.statement, a⟩ s.mentions ds
  | block {a : Ast} {ss : List Stmt} {ds : List Diagnostic} :
    a.toBlock policy = .ok (ss, ds) → ReadsTo policy ⟨.block, a⟩ (Stmt.allMentions ss) ds
  | value {a : Ast} {e : Expr} {ds : List Diagnostic} :
    a.toExpr policy = .ok (e, ds) → ReadsTo policy ⟨.value, a⟩ e.mentions ds
  | element {a : Ast} {x : Argument} {ds : List Diagnostic} :
    a.toArgument policy = .ok (x, ds) → ReadsTo policy ⟨.element, a⟩ x.mentions ds

variable {policy : ReadPolicy} {plain : Prop}

/-- The node is read in its place, and what it records and passes on is there. -/
def Found (policy : ReadPolicy) (plain : Prop) (x : Placed) (ms : List Mention)
    (ds : List Diagnostic) : Prop :=
  ∃ found recorded, ReadsTo policy x found recorded ∧ recorded ⊆ ds ∧
    ∀ m ∈ found, m.Lasts plain → m ∈ ms

namespace Found

variable {x : Placed} {ms more : List Mention} {ds further : List Diagnostic}

theorem of_readsTo (h : ReadsTo policy x ms ds) : Found policy plain x ms ds :=
  ⟨ms, ds, h, List.Subset.refl ds, fun _ hm _ => hm⟩

theorem mono (h : Found policy plain x ms ds) (hms : ∀ m ∈ ms, m.Lasts plain → m ∈ more)
    (hds : ds ⊆ further) : Found policy plain x more further := by
  obtain ⟨found, recorded, hx, hsub, hlast⟩ := h
  exact ⟨found, recorded, hx, List.Subset.trans hsub hds, fun m hm hl => hms m (hlast m hm hl) hl⟩

variable {a : Ast}

theorem value {e : Expr} (h : a.toExpr policy = .ok (e, ds)) (hms : e.mentions ⊆ more)
    (hds : ds ⊆ further) : Found policy plain ⟨.value, a⟩ more further :=
  (of_readsTo (.value h)).mono (fun _ hm _ => hms hm) hds

theorem statement {s : Stmt} (h : a.toStmt policy = .ok (s, ds)) (hms : s.mentions ⊆ more)
    (hds : ds ⊆ further) : Found policy plain ⟨.statement, a⟩ more further :=
  (of_readsTo (.statement h)).mono (fun _ hm _ => hms hm) hds

theorem block {ss : List Stmt} (h : a.toBlock policy = .ok (ss, ds))
    (hms : Stmt.allMentions ss ⊆ more) (hds : ds ⊆ further) :
    Found policy plain ⟨.block, a⟩ more further :=
  (of_readsTo (.block h)).mono (fun _ hm _ => hms hm) hds

end Found

theorem exprsOf_eq_mapM (as : List Ast) : exprsOf policy as = as.mapM (·.toExpr policy) := by
  induction as with
  | nil => rfl
  | cons a as ih => rw [exprsOf, List.mapM_cons, ih]

theorem argumentsOf_eq_mapM (as : List Ast) :
    argumentsOf policy as = as.mapM (·.toArgument policy) := by
  induction as with
  | nil => rfl
  | cons a as ih => rw [argumentsOf, List.mapM_cons, ih]

theorem stmtsOf_eq_mapM (as : List Ast) : stmtsOf policy as = as.mapM (·.toStmt policy) := by
  induction as with
  | nil => rfl
  | cons a as ih => rw [stmtsOf, List.mapM_cons, ih]

theorem linksOf_eq_mapM (cs : List IfClause) : linksOf policy cs = cs.mapM (·.toLink policy) := by
  induction cs with
  | nil => rfl
  | cons c cs ih => rw [linksOf, List.mapM_cons, ih]

variable {extent : Extent}

theorem found_of_mapM {β : Type} {place : Place} {f : Ast → Recorded β}
    {mentions : β → List Mention} {as : List Ast} {bs : List β} {ds : List Diagnostic}
    (hread : ∀ a b ds, f a = .ok (b, ds) → ReadsTo policy ⟨place, a⟩ (mentions b) ds)
    (h : as.mapM f = .ok (bs, ds)) {c : Placed} (hc : c ∈ as.map (⟨place, ·⟩)) :
    Found policy plain c (bs.flatMap mentions) ds := by
  obtain ⟨a, ha, rfl⟩ := List.mem_map.mp hc
  obtain ⟨b, recorded, hb, hmem, hsub⟩ := mem_of_mapM h ha
  refine (Found.of_readsTo (hread a b recorded hb)).mono (fun m hm _ => ?_) hsub
  exact List.mem_flatMap.mpr ⟨b, hmem, hm⟩

theorem found_of_exprsOf {as : List Ast} {es : List Expr} {ds : List Diagnostic}
    (h : exprsOf policy as = .ok (es, ds)) {c : Placed} (hc : c ∈ as.map (⟨.value, ·⟩)) :
    Found policy plain c (Expr.allMentions es) ds := by
  rw [exprsOf_eq_mapM] at h
  rw [Expr.allMentions_eq]
  exact found_of_mapM (fun _ _ _ ha => .value ha) h hc

theorem found_of_argumentsOf {as : List Ast} {xs : List Argument} {ds : List Diagnostic}
    (h : argumentsOf policy as = .ok (xs, ds)) {c : Placed} (hc : c ∈ as.map (⟨.element, ·⟩)) :
    Found policy plain c (Argument.allMentions xs) ds := by
  rw [argumentsOf_eq_mapM] at h
  rw [Argument.allMentions_eq]
  exact found_of_mapM (fun _ _ _ ha => .element ha) h hc

theorem found_of_stmtsOf {as : List Ast} {ss : List Stmt} {ds : List Diagnostic}
    (h : stmtsOf policy as = .ok (ss, ds)) {c : Placed} (hc : c ∈ as.map (⟨.statement, ·⟩)) :
    Found policy plain c (Stmt.allMentions ss) ds := by
  rw [stmtsOf_eq_mapM] at h
  rw [Stmt.allMentions_eq]
  exact found_of_mapM (fun _ _ _ ha => .statement ha) h hc

theorem found_of_toCallee {a : Ast} {e : Expr} {ds : List Diagnostic}
    (h : a.toCallee policy = .ok (e, ds)) : Found policy plain ⟨.value, a⟩ e.mentions ds := by
  obtain ⟨place, kind⟩ := a
  cases kind with
  | stringConstant name =>
    refine ⟨_, _, .value rfl, List.nil_subset _, fun m hm hl => ?_⟩
    obtain rfl := List.mem_singleton.mp hm
    exact hl.elim
  | _ => exact .of_readsTo (.value h)

theorem unsupported_ne_identifier {kind : String} {q : String → Prop} :
    Yields (unsupported policy kind extent) fun e _ => ∀ name, e = .identifier name → q name := by
  intro e ds h
  unfold unsupported at h
  split at h
  · cases h
  · cases h
    intro name hname
    cases hname

theorem commandExpr_ne_identifier (invocation : Invocation) (name : String) :
    commandExpr invocation ≠ .identifier name := by
  unfold commandExpr createdObject
  grind [Invocation.toExpr]

mutual

theorem Ast.toExpr_identifier (a : Ast) :
    Yields (a.toExpr policy) fun e _ => ∀ name, e = .identifier name → name ∈ a.leaves := by
  obtain ⟨place, kind⟩ := a
  exact kind.toExpr_identifier place
termination_by structural a

theorem Kind.toExpr_identifier (place : Extent) (k : Kind) :
    Yields (k.toExpr policy place) fun e _ => ∀ name, e = .identifier name → name ∈ k.leaves := by
  cases k with
  | pipeline elements =>
    match elements with
    | [element] =>
      simp only [Kind.leaves, Ast.allLeaves, List.append_nil]
      exact element.toExpr_identifier
    | [] | _ :: _ :: _ => exact unsupported_ne_identifier
  | commandExpression expression => exact expression.toExpr_identifier
  | command elements =>
    match elements with
    | [] => exact unsupported_ne_identifier
    | head :: rest =>
      refine Yields.of_bind fun callee => Yields.of_bind fun arguments => .pure fun name h => ?_
      exact absurd h (commandExpr_ne_identifier _ name)
  | assignment left operator right =>
    refine Yields.of_bind fun target => ?_
    by_cases ho : operator = "Equals"
    · simp only [ho, if_true]
      exact Yields.of_bind fun value => .pure nofun
    · simp only [ho, if_false]
      exact Yields.of_bind fun _ => Yields.of_bind fun value => .pure nofun
  | binary left operator right =>
    exact Yields.of_bind fun l => Yields.of_bind fun _ => Yields.of_bind fun r => .pure nofun
  | unary token child =>
    simp only [Kind.toExpr]
    refine Yields.of_bind fun _ => Yields.of_bind fun operand => ?_
    cases (Token.unary token).2 <;> exact .pure nofun
  | constant | stringConstant | expandableString => exact .pure nofun
  | var name | typeExpression name =>
    refine .pure fun _ h => ?_
    cases h
    exact List.mem_singleton_self name
  | convert | member | paren => exact Yields.of_bind fun e => .pure nofun
  | index | invokeMember => exact Yields.of_bind fun e => Yields.of_bind fun i => .pure nofun
  | subExpression statements =>
    match statements with
    | [statement] => exact Yields.of_bind fun e => .pure nofun
    | [] | _ :: _ :: _ => exact unsupported_ne_identifier
  | arrayLiteral | arrayExpression => exact Yields.of_bind fun es => .pure nofun
  | _ => exact unsupported_ne_identifier
termination_by structural k

end

theorem mem_leaves_of_toCallee {name : String} {ds : List Diagnostic} (head : Ast)
    (rest : List Ast) (h : head.toCallee policy = .ok (.identifier name, ds)) :
    name ∈ (Kind.command (head :: rest)).leaves := by
  refine List.mem_append_left _ ?_
  obtain ⟨place, kind⟩ := head
  cases kind with
  | stringConstant =>
    cases h
    exact List.mem_singleton_self name
  | _ => exact Kind.toExpr_identifier place _ _ ds h name rfl

theorem lasts_commandExpr (plain : Prop) {callee : Expr} (arguments : List Argument)
    (h : plain → ∀ name, callee = .identifier name → ¬ Text.sameName "New-Object" name) :
    ∀ m ∈ callee.mentions ++ Argument.allMentions arguments, m.Lasts plain →
      m ∈ (commandExpr ⟨callee, attachValues arguments⟩).mentions := by
  intro m hm hl
  cases m with
  | literal text =>
    have hcall : commandExpr ⟨callee, attachValues arguments⟩ =
        .call callee (attachValues arguments) := by
      unfold commandExpr
      split
      · next hname =>
        cases callee with
        | identifier name => exact absurd hname (h hl name rfl)
        | _ => cases hname
      · rfl
    rwa [hcall, Expr.mentions, Argument.allMentions_attachValues]
  | method name parameters =>
    obtain hm | hm := List.mem_append.mp hm
    · exact absurd hm (callee.method_notMem_mentions name parameters)
    · exact absurd hm (Argument.method_notMem_allMentions name parameters arguments)
  | _ => exact hl.elim

/-- Reading an expression reads each part of it or reports the whole. -/
theorem Kind.toExpr_found {k : Kind} {e : Expr} {ds : List Diagnostic}
    (h : k.toExpr policy extent = .ok (e, ds)) {c : Placed} (hc : c ∈ k.children) :
    .unsupported ⟨k.name, extent⟩ ∈ ds ∨ Found policy (NamesNoObject k.leaves) c e.mentions ds := by
  cases k with
  | pipeline elements =>
    match elements with
    | [element] =>
      obtain rfl := List.mem_singleton.mp hc
      exact .inr (.of_readsTo (.value h))
    | [] | _ :: _ :: _ => exact .inl (mem_of_unsupported h)
  | commandExpression expression =>
    obtain rfl := List.mem_singleton.mp hc
    exact .inr (.of_readsTo (.value h))
  | command elements =>
    match elements with
    | [] => exact .inl (mem_of_unsupported h)
    | head :: rest =>
      obtain ⟨callee, ds₁, _, hcallee, h₁, rfl⟩ := bind_eq_ok h
      obtain ⟨arguments, ds₂, _, harguments, h₂, rfl⟩ := bind_eq_ok h₁
      cases h₂
      right
      -- The name of the command is a leaf, so it creates no object where no leaf says so.
      have hname (hplain : NamesNoObject (Kind.command (head :: rest)).leaves) (name : String)
          (hc : callee = .identifier name) : ¬ Text.sameName "New-Object" name := by
        subst hc
        exact hplain name (mem_leaves_of_toCallee head rest hcallee)
      have hkept := lasts_commandExpr _ arguments hname
      obtain rfl | hc := List.mem_cons.mp hc
      · refine (found_of_toCallee hcallee).mono (fun m hm hl => hkept m ?_ hl) (by grind)
        exact List.mem_append_left _ hm
      · refine (found_of_argumentsOf harguments hc).mono (fun m hm hl => hkept m ?_ hl) (by grind)
        exact List.mem_append_right _ hm
  | assignment left operator right =>
    obtain ⟨target, ds₁, more, ht, h₁, rfl⟩ := bind_eq_ok h
    have hvalue : ∃ op value recorded, right.toExpr policy = .ok (value, recorded) ∧
        e = .assign target op value ∧ recorded ⊆ ds₁ ++ more := by
      by_cases ho : operator = "Equals"
      · simp only [ho, if_true] at h₁
        obtain ⟨value, ds₂, _, hv, h₂, rfl⟩ := bind_eq_ok h₁
        cases h₂
        exact ⟨none, value, ds₂, hv, rfl, by grind⟩
      · simp only [ho, if_false] at h₁
        obtain ⟨_, ds₂, _, -, h₂, rfl⟩ := bind_eq_ok h₁
        obtain ⟨value, ds₃, _, hv, h₃, rfl⟩ := bind_eq_ok h₂
        cases h₃
        exact ⟨_, value, ds₃, hv, rfl, by grind⟩
    obtain ⟨op, value, recorded, hv, rfl, hsub⟩ := hvalue
    right
    simp only [Kind.children, List.mem_cons, List.not_mem_nil, or_false] at hc
    obtain rfl | rfl := hc
    · exact .value ht (by grind [Expr.mentions]) (by grind)
    · exact .value hv (by grind [Expr.mentions]) hsub
  | binary left operator right =>
    obtain ⟨l, ds₁, _, hl, h₁, rfl⟩ := bind_eq_ok h
    obtain ⟨-, ds₂, _, -, h₂, rfl⟩ := bind_eq_ok h₁
    obtain ⟨r, ds₃, _, hr, h₃, rfl⟩ := bind_eq_ok h₂
    cases h₃
    right
    simp only [Kind.children, List.mem_cons, List.not_mem_nil, or_false] at hc
    obtain rfl | rfl := hc
    · exact .value hl (by grind [Expr.mentions]) (by grind)
    · exact .value hr (by grind [Expr.mentions]) (by grind)
  | unary token child =>
    simp only [Kind.toExpr] at h
    obtain ⟨-, ds₁, _, -, h₁, rfl⟩ := bind_eq_ok h
    obtain ⟨operand, ds₂, _, ho, h₂, rfl⟩ := bind_eq_ok h₁
    have he : e.mentions = operand.mentions := by
      cases hf : (Token.unary token).2 <;> simp only [hf] at h₂ <;> cases h₂ <;> rfl
    obtain rfl := List.mem_singleton.mp hc
    exact .inr (.value ho (by grind) (by grind))
  | convert typeName child =>
    obtain ⟨operand, ds₁, _, ho, h₁, rfl⟩ := bind_eq_ok h
    cases h₁
    obtain rfl := List.mem_singleton.mp hc
    exact .inr (.value ho (by grind [Expr.mentions]) (by grind))
  | index target key =>
    obtain ⟨t, ds₁, _, ht, h₁, rfl⟩ := bind_eq_ok h
    obtain ⟨i, ds₂, _, hi, h₂, rfl⟩ := bind_eq_ok h₁
    cases h₂
    right
    simp only [Kind.children, List.mem_cons, List.not_mem_nil, or_false] at hc
    obtain rfl | rfl := hc
    · exact .value ht (by grind [Expr.indexed, Expr.mentions]) (by grind)
    · refine (Found.of_readsTo (.value hi)).mono ?_ (by grind)
      grind [Expr.indexed, Expr.mentions, Argument.allMentions, Argument.mentions,
        Argument.positional, Expr.optMentions]
  | invokeMember expression member arguments isStatic =>
    obtain ⟨target, ds₁, _, ht, h₁, rfl⟩ := bind_eq_ok h
    obtain ⟨values, ds₂, _, hv, h₂, rfl⟩ := bind_eq_ok h₁
    cases h₂
    right
    obtain rfl | hc := List.mem_cons.mp hc
    · exact .value ht (by grind [Expr.mentions]) (by grind)
    · refine (found_of_exprsOf hv hc).mono ?_ (by grind)
      grind [Expr.mentions, Argument.allMentions_positional]
  | member expression member isStatic =>
    obtain ⟨target, ds₁, _, ht, h₁, rfl⟩ := bind_eq_ok h
    cases h₁
    obtain rfl := List.mem_singleton.mp hc
    exact .inr (.value ht (by grind [Expr.mentions]) (by grind))
  | paren inner =>
    obtain ⟨i, ds₁, _, hi, h₁, rfl⟩ := bind_eq_ok h
    cases h₁
    obtain rfl := List.mem_singleton.mp hc
    exact .inr (.value hi (by grind [Expr.mentions]) (by grind))
  | subExpression statements =>
    obtain _ | ⟨statement, _ | ⟨_, _⟩⟩ := statements
    · exact .inl (mem_of_unsupported h)
    · obtain ⟨i, ds₁, _, hi, h₁, rfl⟩ := bind_eq_ok h
      cases h₁
      obtain rfl := List.mem_singleton.mp hc
      exact .inr (.value hi (by grind [Expr.mentions]) (by grind))
    · exact .inl (mem_of_unsupported h)
  | arrayLiteral elements =>
    obtain ⟨es, ds₁, _, hes, h₁, rfl⟩ := bind_eq_ok h
    cases h₁
    exact .inr ((found_of_exprsOf hes hc).mono (by grind [Expr.mentions]) (by grind))
  | arrayExpression statements =>
    obtain ⟨es, ds₁, _, hes, h₁, rfl⟩ := bind_eq_ok h
    cases h₁
    refine .inr ((found_of_exprsOf hes hc).mono ?_ (by grind))
    grind [Expr.mentions, allMentions_flatten]
  | constant | stringConstant | expandableString | var | typeExpression => cases hc
  | _ => exact .inl (mem_of_unsupported h)

theorem found_of_optExprOf {a : Option Ast} {e : Option Expr} {ds : List Diagnostic}
    (h : optExprOf policy a = .ok (e, ds)) {c : Placed} (hc : c ∈ a.toList.map (⟨.value, ·⟩)) :
    Found policy plain c (Expr.optMentions e) ds := by
  cases a with
  | none => cases hc
  | some a =>
    obtain ⟨e, ds₁, _, he, h₁, rfl⟩ := bind_eq_ok h
    cases h₁
    obtain rfl := List.mem_singleton.mp hc
    exact .value he (List.Subset.refl _) (by grind)

theorem found_of_optStmtOf {a : Option Ast} {s : Option Stmt} {ds : List Diagnostic}
    (h : optStmtOf policy a = .ok (s, ds)) {c : Placed}
    (hc : c ∈ a.toList.map (⟨.statement, ·⟩)) : Found policy plain c (Stmt.optMentions s) ds := by
  cases a with
  | none => cases hc
  | some a =>
    obtain ⟨s, ds₁, _, hs, h₁, rfl⟩ := bind_eq_ok h
    cases h₁
    obtain rfl := List.mem_singleton.mp hc
    exact .statement hs (List.Subset.refl _) (by grind)

theorem found_of_optBlockOf {a : Option Ast} {b : Option (List Stmt)} {ds : List Diagnostic}
    (h : optBlockOf policy a = .ok (b, ds)) {c : Placed} (hc : c ∈ a.toList.map (⟨.block, ·⟩)) :
    Found policy plain c (Stmt.optAllMentions b) ds := by
  cases a with
  | none => cases hc
  | some a =>
    obtain ⟨b, ds₁, _, hb, h₁, rfl⟩ := bind_eq_ok h
    cases h₁
    obtain rfl := List.mem_singleton.mp hc
    exact .block hb (List.Subset.refl _) (by grind)

theorem found_of_toLink {clause : IfClause} {link : Link} {ds : List Diagnostic}
    (h : clause.toLink policy = .ok (link, ds)) {c : Placed}
    (hc : c ∈ [⟨.value, clause.condition⟩, ⟨.statement, clause.body⟩]) :
    Found policy plain c link.mentions ds := by
  obtain ⟨condition, body⟩ := clause
  obtain ⟨e, ds₁, _, he, h₁, rfl⟩ := bind_eq_ok h
  obtain ⟨s, ds₂, _, hs, h₂, rfl⟩ := bind_eq_ok h₁
  cases h₂
  simp only [List.mem_cons, List.not_mem_nil, or_false] at hc
  obtain rfl | rfl := hc
  · exact .value he (by grind [Link.mentions]) (by grind)
  · exact .statement hs (by grind [Link.mentions]) (by grind)

theorem found_of_linksOf {clauses : List IfClause} {links : List Link} {ds : List Diagnostic}
    (h : linksOf policy clauses = .ok (links, ds)) {c : Placed}
    (hc : c ∈ clauses.flatMap fun c => [⟨.value, c.condition⟩, ⟨.statement, c.body⟩]) :
    Found policy plain c (links.flatMap Link.mentions) ds := by
  obtain ⟨clause, hmem, hc⟩ := List.mem_flatMap.mp hc
  rw [linksOf_eq_mapM] at h
  obtain ⟨link, recorded, hlink, hmem, hsub⟩ := mem_of_mapM h hmem
  refine (found_of_toLink hlink hc).mono (fun m hm _ => ?_) hsub
  exact List.mem_flatMap.mpr ⟨link, hmem, hm⟩

theorem found_of_catchesOfClauses {clauses : List CatchClause} {cs : List Catch}
    {ds : List Diagnostic} (h : catchesOfClauses policy clauses = .ok (cs, ds)) {c : Placed}
    (hc : c ∈ clauses.map (⟨.block, ·.body⟩)) :
    Found policy plain c (Catch.allMentions cs) ds := by
  induction clauses generalizing cs ds with
  | nil => cases hc
  | cons clause clauses ih =>
    obtain ⟨first, ds₁, _, hfirst, h₁, rfl⟩ := bind_eq_ok h
    obtain ⟨rest, ds₂, _, hrest, h₂, rfl⟩ := bind_eq_ok h₁
    cases h₂
    rw [Catch.allMentions_eq, List.flatMap_append, ← Catch.allMentions_eq, ← Catch.allMentions_eq]
    obtain rfl | hc := List.mem_cons.mp hc
    · obtain ⟨place, types, body⟩ := clause
      obtain ⟨block, ds₃, _, hb, h₃, rfl⟩ := bind_eq_ok hfirst
      cases h₃
      refine (Found.of_readsTo (.block hb)).mono (fun m hm _ => ?_) (by grind)
      exact List.mem_append_left _ (subset_allMentions_catchesOf types block hm)
    · exact (ih hrest hc).mono (fun m hm _ => List.mem_append_right _ hm) (by grind)

theorem found_of_declaration? {left : Ast} {operator : String} {declared : String × String}
    (h : left.declaration? operator = some declared) (ms : List Mention) (ds : List Diagnostic) :
    Found policy plain ⟨.value, left⟩ ms ds := by
  obtain ⟨-, place, inner, rfl⟩ := Ast.eq_of_declaration? h
  refine ⟨_, _, .value rfl, List.nil_subset _, fun m hm hl => ?_⟩
  simp only [Expr.mentions, List.mem_cons, List.not_mem_nil, or_false] at hm
  obtain rfl | rfl := hm <;> exact hl.elim

theorem Kind.toStmt_found {k : Kind} {s : Stmt} {ds : List Diagnostic}
    (h : k.toStmt policy extent = .ok (s, ds)) {c : Placed} (hc : c ∈ k.children) :
    Ast.LeftOut ⟨extent, k⟩ ds ∨ Found policy (NamesNoObject k.leaves) c s.mentions ds := by
  -- What is no statement of its own is read as an expression.
  have hexpr {e : Expr} {first : List Diagnostic} (he : k.toExpr policy extent = .ok (e, first)) :
      Ast.LeftOut ⟨extent, k⟩ (first ++ []) ∨
        Found policy (NamesNoObject k.leaves) c e.mentions (first ++ []) := by
    rw [List.append_nil]
    exact (k.toExpr_found he hc).imp_left .inl
  cases k with
  | scriptBlock block statements =>
    obtain ⟨noted, ds₁, _, -, h₁, rfl⟩ := bind_eq_ok h
    obtain ⟨ss, ds₂, _, hss, h₂, rfl⟩ := bind_eq_ok h₁
    cases h₂
    refine .inr ((found_of_stmtsOf hss hc).mono ?_ (by grind))
    grind [Stmt.mentions, Stmt.allMentions_eq]
  | statementBlock statements =>
    obtain ⟨ss, ds₁, _, hss, h₁, rfl⟩ := bind_eq_ok h
    cases h₁
    refine .inr ((found_of_stmtsOf hss hc).mono ?_ (by grind))
    grind [mentions_collapse]
  | assignment left operator right =>
    simp only [Kind.toStmt] at h
    cases hd : left.declaration? operator with
    | some declared =>
      rw [hd] at h
      obtain ⟨e, ds₁, _, he, h₁, rfl⟩ := bind_eq_ok h
      cases h₁
      right
      simp only [Kind.children, List.mem_cons, List.not_mem_nil, or_false] at hc
      obtain rfl | rfl := hc
      · exact found_of_declaration? hd _ _
      · exact .value he (by grind [Stmt.mentions]) (by grind)
    | none =>
      rw [hd] at h
      obtain ⟨e, ds₁, _, he, h₁, rfl⟩ := bind_eq_ok h
      cases h₁
      exact hexpr he
  | ifStatement clauses elseClause =>
    cases clauses with
    | nil =>
      obtain ⟨e, ds₁, _, he, h₁, rfl⟩ := bind_eq_ok h
      cases h₁
      exact hexpr he
    | cons first rest =>
      obtain ⟨link, ds₁, _, hlink, h₁, rfl⟩ := bind_eq_ok h
      obtain ⟨links, ds₂, _, hlinks, h₂, rfl⟩ := bind_eq_ok h₁
      obtain ⟨final, ds₃, _, hfinal, h₃, rfl⟩ := bind_eq_ok h₂
      cases h₃
      right
      rw [Clauses.mentions_link, List.flatMap_cons]
      obtain hc | hc := List.mem_append.mp hc
      · obtain hc | hc := List.mem_append.mp hc
        · exact (found_of_toLink hlink hc).mono (by grind) (by grind)
        · exact (found_of_linksOf hlinks hc).mono (by grind) (by grind)
      · exact (found_of_optBlockOf hfinal hc).mono (by grind) (by grind)
  | whileStatement condition body =>
    obtain ⟨e, ds₁, _, he, h₁, rfl⟩ := bind_eq_ok h
    obtain ⟨b, ds₂, _, hb, h₂, rfl⟩ := bind_eq_ok h₁
    cases h₂
    right
    simp only [Kind.children, List.mem_cons, List.not_mem_nil, or_false] at hc
    obtain rfl | rfl := hc
    · exact .value he (by grind [Stmt.mentions]) (by grind)
    · exact .statement hb (by grind [Stmt.mentions]) (by grind)
  | forStatement initializer condition step body =>
    obtain ⟨i, ds₁, _, hi, h₁, rfl⟩ := bind_eq_ok h
    obtain ⟨e, ds₂, _, he, h₂, rfl⟩ := bind_eq_ok h₁
    obtain ⟨n, ds₃, _, hn, h₃, rfl⟩ := bind_eq_ok h₂
    obtain ⟨b, ds₄, _, hb, h₄, rfl⟩ := bind_eq_ok h₃
    cases h₄
    right
    simp only [Kind.children, List.mem_append, List.mem_singleton] at hc
    obtain hc | hc | hc | rfl := hc
    · exact (found_of_optStmtOf hi hc).mono (by grind [Stmt.mentions]) (by grind)
    · exact (found_of_optExprOf he hc).mono (by grind [Stmt.mentions]) (by grind)
    · exact (found_of_optExprOf hn hc).mono (by grind [Stmt.mentions]) (by grind)
    · exact .statement hb (by grind [Stmt.mentions]) (by grind)
  | forEachStatement item condition body =>
    obtain ⟨place, item⟩ := item
    cases item with
    | var path =>
      obtain ⟨e, ds₁, _, he, h₁, rfl⟩ := bind_eq_ok h
      obtain ⟨b, ds₂, _, hb, h₂, rfl⟩ := bind_eq_ok h₁
      cases h₂
      right
      simp only [Kind.children, List.mem_cons, List.not_mem_nil, or_false] at hc
      obtain rfl | rfl | rfl := hc
      · refine ⟨_, _, .value rfl, List.nil_subset _, fun m hm hl => ?_⟩
        obtain rfl := List.mem_singleton.mp hm
        exact hl.elim
      · exact .value he (by grind [Stmt.mentions]) (by grind)
      · exact .statement hb (by grind [Stmt.mentions]) (by grind)
    | _ =>
      -- Neither the condition nor the body is looked at.
      obtain ⟨e, ds₁, _, he, h₁, rfl⟩ := bind_eq_ok h
      refine .inl (.inr ⟨_, condition, body, rfl, fun path hvar => ?_, ?_⟩)
      · cases hvar
      · exact List.mem_append_left _ (mem_of_unsupported he)
  | breakStatement | continueStatement => cases hc
  | returnStatement value =>
    obtain ⟨e, ds₁, _, he, h₁, rfl⟩ := bind_eq_ok h
    cases h₁
    exact .inr ((found_of_optExprOf he hc).mono (by grind [Stmt.mentions]) (by grind))
  | tryStatement body catches final =>
    obtain ⟨b, ds₁, _, hb, h₁, rfl⟩ := bind_eq_ok h
    obtain ⟨cs, ds₂, _, hcs, h₂, rfl⟩ := bind_eq_ok h₁
    obtain ⟨f, ds₃, _, hf, h₃, rfl⟩ := bind_eq_ok h₂
    cases h₃
    right
    obtain rfl | hc := List.mem_cons.mp hc
    · exact .block hb (by grind [Stmt.mentions]) (by grind)
    · obtain hc | hc := List.mem_append.mp hc
      · exact (found_of_catchesOfClauses hcs hc).mono (by grind [Stmt.mentions]) (by grind)
      · exact (found_of_optBlockOf hf hc).mono (by grind [Stmt.mentions]) (by grind)
  | function name parameters body =>
    obtain ⟨b, ds₁, _, hb, h₁, rfl⟩ := bind_eq_ok h
    cases h₁
    obtain rfl := List.mem_singleton.mp hc
    refine .inr ((Found.of_readsTo (.block hb)).mono ?_ (by grind))
    grind [Stmt.publicMethod, Stmt.mentions]
  | _ =>
    obtain ⟨e, ds₁, _, he, h₁, rfl⟩ := bind_eq_ok h
    cases h₁
    exact hexpr he

theorem Ast.toBlock_found {a : Ast} {ss : List Stmt} {ds : List Diagnostic}
    (h : a.toBlock policy = .ok (ss, ds)) {c : Placed} (hc : c ∈ a.kind.children) :
    a.LeftOut ds ∨ Found policy (NamesNoObject a.leaves) c (Stmt.allMentions ss) ds := by
  obtain ⟨place, kind⟩ := a
  cases kind with
  | scriptBlock | statementBlock => exact .inr (found_of_stmtsOf h hc)
  | _ =>
    obtain ⟨s, ds₁, _, hs, h₁, rfl⟩ := bind_eq_ok h
    cases h₁
    rw [List.append_nil, Stmt.allMentions_statements]
    exact Kind.toStmt_found hs hc

theorem Ast.toArgument_found {a : Ast} {x : Argument} {ds : List Diagnostic}
    (h : a.toArgument policy = .ok (x, ds)) {c : Placed} (hc : c ∈ a.kind.children) :
    a.LeftOut ds ∨ Found policy (NamesNoObject a.leaves) c x.mentions ds := by
  obtain ⟨place, kind⟩ := a
  cases kind with
  | commandParameter name argument =>
    obtain ⟨e, ds₁, _, he, h₁, rfl⟩ := bind_eq_ok h
    cases h₁
    refine .inr ((found_of_optExprOf he hc).mono ?_ (by grind))
    grind [Argument.mentions]
  | _ =>
    obtain ⟨e, ds₁, _, he, h₁, rfl⟩ := bind_eq_ok h
    cases h₁
    rw [List.append_nil]
    exact (Kind.toExpr_found he hc).imp .inl id

theorem ReadsTo.found {x : Placed} {ms : List Mention} {ds : List Diagnostic}
    (h : ReadsTo policy x ms ds) {c : Placed} (hc : c ∈ x.node.kind.children) :
    x.node.LeftOut ds ∨ Found policy (NamesNoObject x.node.leaves) c ms ds := by
  cases h with
  | @statement a s ds h =>
    obtain ⟨place, kind⟩ := a
    exact Kind.toStmt_found h hc
  | block h => exact Ast.toBlock_found h hc
  | @value a e ds h =>
    obtain ⟨place, kind⟩ := a
    exact (Kind.toExpr_found h hc).imp_left .inl
  | element h => exact Ast.toArgument_found h hc

/-- Each node of a tree that is read is read in its place, unless a node above it is left out. -/
theorem Below.found {root : Ast} {above : List Ast} {x : Placed} {s : Stmt}
    {ds : List Diagnostic} (hx : Below root above x) (h : root.toStmt policy = .ok (s, ds)) :
    (∃ a ∈ above, a.LeftOut ds) ∨ Found policy (NamesNoObject root.leaves) x s.mentions ds := by
  induction hx with
  | root => exact .inr (.of_readsTo (.statement h))
  | @child above x c hx hc ih =>
    obtain ⟨a, ha, hout⟩ | ⟨found, recorded, hread, hsub, hlast⟩ := ih
    · exact .inl ⟨a, List.mem_cons_of_mem _ ha, hout⟩
    · obtain hout | hfound := hread.found hc
      · exact .inl ⟨x.node, List.mem_cons_self, hout.mono hsub⟩
      · right
        obtain ⟨found', recorded', hread', hsub', hlast'⟩ := hfound
        refine ⟨found', recorded', hread', List.Subset.trans hsub' hsub, fun m hm hl => ?_⟩
        refine hlast m (hlast' m hm ?_) hl
        cases m with
        | literal text => exact fun t ht => hl t (hx.leaves_subset ht)
        | method => trivial
        | _ => exact hl.elim

theorem Below.found_of_toReading {root : Ast} {above : List Ast} {x : Placed} {r : Reading}
    (hx : Below root above x) (h : root.toReading policy = .ok r) :
    (∃ a ∈ above, a.LeftOut r.diagnostics) ∨
      Found policy (NamesNoObject root.leaves) x r.node.mentions r.diagnostics := by
  unfold Ast.toReading at h
  split at h
  · next s ds hs =>
    cases h
    exact hx.found hs
  · cases h

end Host

end Interlingua
