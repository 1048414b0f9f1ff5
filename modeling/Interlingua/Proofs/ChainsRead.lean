import Mathlib.Data.List.Forall2
import Interlingua.Proofs.Recording

namespace Interlingua.Host

open Recorded

variable {policy : ReadPolicy}

/-- What a clause is read as: a link, and what is recorded for its condition and then its body. -/
def IfClause.ReadsAs (policy : ReadPolicy) (clause : IfClause) (read : Link × List Diagnostic) :
    Prop :=
  ∃ first second, clause.condition.toExpr policy = .ok (read.1.condition, first) ∧
    clause.body.toStmt policy = .ok (read.1.body, second) ∧ read.2 = first ++ second

/-- What an else clause is read as: a block, and none where there is no clause. -/
inductive ElseReadsAs (policy : ReadPolicy) :
    Option Ast → Option (List Stmt) → List Diagnostic → Prop
  | absent : ElseReadsAs policy none none []
  | block {a : Ast} {body : List Stmt} {ds : List Diagnostic} :
    a.toBlock policy = .ok (body, ds) → ElseReadsAs policy (some a) (some body) ds

theorem ElseReadsAs.isSome_eq {a : Option Ast} {final : Option (List Stmt)}
    {ds : List Diagnostic} (h : ElseReadsAs policy a final ds) : final.isSome = a.isSome := by
  cases h <;> rfl

theorem toLink_eq_ok_iff {clause : IfClause} {link : Link} {ds : List Diagnostic} :
    clause.toLink policy = .ok (link, ds) ↔ clause.ReadsAs policy (link, ds) := by
  obtain ⟨condition, body⟩ := clause
  simp only [IfClause.toLink, ↓bind_pure_eq_ok_iff, bind_eq_ok_iff]
  constructor
  · rintro ⟨c, first, second, hc, ⟨b, hb, rfl⟩, rfl⟩
    exact ⟨first, second, hc, hb, rfl⟩
  · rintro ⟨first, second, hc, hb, rfl⟩
    exact ⟨link.condition, first, second, hc, ⟨link.body, hb, rfl⟩, rfl⟩

theorem linksOf_eq_ok_iff {clauses : List IfClause} {links : List Link} {ds : List Diagnostic} :
    linksOf policy clauses = .ok (links, ds) ↔
      ∃ read, List.Forall₂ (IfClause.ReadsAs policy) clauses read ∧ links = read.map (·.1) ∧
        ds = read.flatMap (·.2) := by
  induction clauses generalizing links ds with
  | nil =>
    constructor
    · intro h
      cases h
      exact ⟨[], .nil, rfl, rfl⟩
    · rintro ⟨read, hread, rfl, rfl⟩
      obtain rfl := List.forall₂_nil_left_iff.mp hread
      rfl
  | cons clause clauses ih =>
    simp only [linksOf, ↓bind_pure_eq_ok_iff, bind_eq_ok_iff, toLink_eq_ok_iff, ih]
    constructor
    · rintro ⟨link, first, _, hlink, ⟨_, ⟨read, hread, rfl, rfl⟩, rfl⟩, rfl⟩
      exact ⟨(link, first) :: read, .cons hlink hread, rfl, rfl⟩
    · rintro ⟨_, hall, rfl, rfl⟩
      obtain ⟨⟨link, first⟩, read, hlink, hread, rfl⟩ := List.forall₂_cons_left_iff.mp hall
      exact ⟨link, first, _, hlink, ⟨_, ⟨read, hread, rfl, rfl⟩, rfl⟩, rfl⟩

theorem optBlockOf_eq_ok_iff {a : Option Ast} {final : Option (List Stmt)}
    {ds : List Diagnostic} :
    optBlockOf policy a = .ok (final, ds) ↔ ElseReadsAs policy a final ds := by
  cases a with
  | none =>
    constructor
    · intro h
      cases h
      exact .absent
    · rintro ⟨⟩
      rfl
  | some a =>
    simp only [optBlockOf, bind_pure_eq_ok_iff]
    constructor
    · rintro ⟨body, h, rfl⟩
      exact .block h
    · rintro ⟨⟩
      next body h => exact ⟨body, h, rfl⟩

/-- A conditional is read if and only if its clauses and its else clause are. It becomes a chain of
exactly their links, which ends in the block of the else clause if there is one, and what they
record follows in order. -/
theorem Ast.toStmt_conditional_iff (policy : ReadPolicy) (extent : Extent) (first : IfClause)
    (rest : List IfClause) (elseClause : Option Ast) (s : Stmt) (ds : List Diagnostic) :
    (Ast.mk extent (.ifStatement (first :: rest) elseClause)).toStmt policy = .ok (s, ds) ↔
      ∃ (c : Conditional) (read : List (Link × List Diagnostic)) (last : List Diagnostic),
        s = c.toStmt ∧
        (c.links.length = (first :: rest).length ∧ c.links = read.map (·.1) ∧
          List.Forall₂ (IfClause.ReadsAs policy) (first :: rest) read) ∧
        (c.final?.isSome = elseClause.isSome ∧ ElseReadsAs policy elseClause c.final? last) ∧
        ds = read.flatMap (·.2) ++ last := by
  simp only [Ast.toStmt, Kind.toStmt, ↓bind_pure_eq_ok_iff, bind_eq_ok_iff, toLink_eq_ok_iff,
    linksOf_eq_ok_iff, optBlockOf_eq_ok_iff]
  constructor
  · rintro ⟨link, ds₁, _, hlink, ⟨_, _, last, ⟨read, hread, rfl, rfl⟩, ⟨final, hfinal, rfl⟩, rfl⟩,
      rfl⟩
    have hall : List.Forall₂ (IfClause.ReadsAs policy) (first :: rest) ((link, ds₁) :: read) :=
      .cons hlink hread
    refine ⟨Clauses.link ⟨link, read.map (·.1), final⟩, (link, ds₁) :: read, last, rfl,
      ⟨?_, Clauses.links_link _, hall⟩, ?_, ?_⟩
    · rw [Clauses.links_link, hall.length_eq, List.length_cons, List.length_cons, List.length_map]
    · rw [Clauses.final?_link]
      exact ⟨hfinal.isSome_eq, hfinal⟩
    · rw [List.flatMap_cons, List.append_assoc]
  · rintro ⟨c, _, last, rfl, ⟨-, hlinks, hall⟩, ⟨-, hfinal⟩, rfl⟩
    obtain ⟨⟨link, ds₁⟩, read, hlink, hread, rfl⟩ := List.forall₂_cons_left_iff.mp hall
    obtain ⟨rfl, hrest⟩ := List.cons.inj hlinks
    refine ⟨_, ds₁, _, hlink,
      ⟨_, _, last, ⟨read, hread, rfl, rfl⟩, ⟨c.final?, hfinal, ?_⟩, rfl⟩, ?_⟩
    · rw [← hrest, Clauses.link_links]
    · rw [List.flatMap_cons, List.append_assoc]

example :
    (Ast.ofKind (.ifStatement [⟨.ofKind (.var "a"), .ofKind (.statementBlock [])⟩]
      (some (.ofKind (.statementBlock [.ofKind (.ifStatement
        [⟨.ofKind (.var "b"), .ofKind .breakStatement⟩] none)]))))).toStmt {} =
      .ok (.conditional (.identifier "a") (.block [])
        (.block [.conditional (.identifier "b") .breakLoop .absent]), []) := rfl

end Interlingua.Host
