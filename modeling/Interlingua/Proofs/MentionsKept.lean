import Interlingua.Proofs.Mentions
import Interlingua.Host.Conversion

namespace Interlingua

theorem Expr.allMentions_eq (es : List Expr) : Expr.allMentions es = es.flatMap Expr.mentions := by
  induction es with
  | nil => rfl
  | cons e es ih => rw [Expr.allMentions, List.flatMap_cons, ih]

theorem Argument.allMentions_eq (as : List Argument) :
    Argument.allMentions as = as.flatMap Argument.mentions := by
  induction as with
  | nil => rfl
  | cons a as ih => rw [Argument.allMentions, List.flatMap_cons, ih]

theorem Stmt.allMentions_eq (ss : List Stmt) : Stmt.allMentions ss = ss.flatMap Stmt.mentions := by
  induction ss with
  | nil => rfl
  | cons s ss ih => rw [Stmt.allMentions, List.flatMap_cons, ih]

theorem Catch.allMentions_eq (cs : List Catch) :
    Catch.allMentions cs = cs.flatMap Catch.mentions := by
  induction cs with
  | nil => rfl
  | cons c cs ih => rw [Catch.allMentions, List.flatMap_cons, ih]

theorem Stmt.allMentions_append (ss ts : List Stmt) :
    Stmt.allMentions (ss ++ ts) = Stmt.allMentions ss ++ Stmt.allMentions ts := by
  simp only [Stmt.allMentions_eq, List.flatMap_append]

theorem Catch.allMentions_append (cs ds : List Catch) :
    Catch.allMentions (cs ++ ds) = Catch.allMentions cs ++ Catch.allMentions ds := by
  simp only [Catch.allMentions_eq, List.flatMap_append]

theorem Argument.mentions_eq (a : Argument) :
    a.mentions = a.name.toList.map .label ++ Expr.optMentions a.value := by
  cases a
  rfl

theorem Argument.allMentions_positional (es : List Expr) :
    Argument.allMentions (es.map .positional) = Expr.allMentions es := by
  rw [Argument.allMentions_eq, Expr.allMentions_eq, List.flatMap_map]
  rfl

theorem Argument.allMentions_attachValues (as : List Argument) :
    Argument.allMentions (attachValues as) = Argument.allMentions as := by
  rw [Argument.allMentions_eq, Argument.allMentions_eq]
  exact flatMap_attachValues (fun name => name.toList.map .label) Argument.mentions_eq rfl rfl as

theorem Stmt.allMentions_statements (s : Stmt) : Stmt.allMentions s.statements = s.mentions := by
  cases s with
  | block body => rfl
  | _ => exact List.append_nil _

def Link.mentions (link : Link) : List Mention := link.condition.mentions ++ link.body.mentions

theorem Else.mentions_ofLinks (final : Option (List Stmt)) (links : List Link) :
    (Else.ofLinks final links).mentions =
      links.flatMap Link.mentions ++ Stmt.optAllMentions final := by
  induction links with
  | nil => cases final <;> rfl
  | cons link links ih =>
    simp only [Else.ofLinks, Else.mentions, ih, List.flatMap_cons, Link.mentions,
      List.append_assoc]

theorem Clauses.mentions_link (clauses : Clauses) :
    clauses.link.toStmt.mentions =
      (clauses.first :: clauses.elseIfs).flatMap Link.mentions ++
        Stmt.optAllMentions clauses.final := by
  simp only [link, Conditional.toStmt, Stmt.mentions, Else.mentions_ofLinks, List.flatMap_cons,
    Link.mentions, List.append_assoc]

mutual

theorem Expr.method_notMem_mentions (name : String) (parameters : List Parameter) (e : Expr) :
    Mention.method name parameters ∉ e.mentions := by
  cases e with
  | literal text | string text | template text | identifier text => simp [Expr.mentions]
  | binary left op right =>
    simp [Expr.mentions, left.method_notMem_mentions name parameters,
      right.method_notMem_mentions name parameters]
  | before op operand => exact operand.method_notMem_mentions name parameters
  | after op operand => exact operand.method_notMem_mentions name parameters
  | grouped inner => exact inner.method_notMem_mentions name parameters
  | cast typeName operand =>
    simp [Expr.mentions, operand.method_notMem_mentions name parameters]
  | member target member isStatic =>
    simp [Expr.mentions, target.method_notMem_mentions name parameters]
  | element target index =>
    simp [Expr.mentions, target.method_notMem_mentions name parameters,
      Argument.method_notMem_allMentions name parameters index]
  | call callee passed =>
    simp [Expr.mentions, callee.method_notMem_mentions name parameters,
      Argument.method_notMem_allMentions name parameters passed]
  | create typeName passed =>
    simp [Expr.mentions, Argument.method_notMem_allMentions name parameters passed]
  | array elementType elements =>
    simp [Expr.mentions, Expr.method_notMem_allMentions name parameters elements]
  | assign target op value =>
    simp [Expr.mentions, target.method_notMem_mentions name parameters,
      value.method_notMem_mentions name parameters]
termination_by structural e

theorem Argument.method_notMem_mentions (name : String) (parameters : List Parameter)
    (a : Argument) : Mention.method name parameters ∉ a.mentions := by
  obtain ⟨label, value⟩ := a
  simp [Argument.mentions, Expr.method_notMem_optMentions name parameters value]
termination_by structural a

theorem Expr.method_notMem_optMentions (name : String) (parameters : List Parameter)
    (e : Option Expr) : Mention.method name parameters ∉ Expr.optMentions e := by
  cases e with
  | none => exact List.not_mem_nil
  | some e => exact e.method_notMem_mentions name parameters
termination_by structural e

theorem Expr.method_notMem_allMentions (name : String) (parameters : List Parameter)
    (es : List Expr) : Mention.method name parameters ∉ Expr.allMentions es := by
  cases es with
  | nil => exact List.not_mem_nil
  | cons e es =>
    simp [Expr.allMentions, e.method_notMem_mentions name parameters,
      Expr.method_notMem_allMentions name parameters es]
termination_by structural es

theorem Argument.method_notMem_allMentions (name : String) (parameters : List Parameter)
    (as : List Argument) : Mention.method name parameters ∉ Argument.allMentions as := by
  cases as with
  | nil => exact List.not_mem_nil
  | cons a as =>
    simp [Argument.allMentions, a.method_notMem_mentions name parameters,
      Argument.method_notMem_allMentions name parameters as]
termination_by structural as

end

namespace Host

theorem mentions_collapse (ss : List Stmt) : (collapse ss).mentions = Stmt.allMentions ss := by
  match ss with
  | [s] => exact (List.append_nil _).symm
  | [] | _ :: _ :: _ => rfl

theorem allMentions_flatten (es : List Expr) :
    Expr.allMentions (flatten es) = Expr.allMentions es := by
  rw [Expr.allMentions_eq, Expr.allMentions_eq]
  exact flatMap_flatten Expr.allMentions_eq es

theorem subset_allMentions_catchesOf (types : List String) (body : List Stmt) :
    Stmt.allMentions body ⊆ Catch.allMentions (catchesOf types body) := by
  intro m hm
  cases types with
  | nil => simp [catchesOf, Catch.allMentions, Catch.mentions, hm]
  | cons t ts => simp [catchesOf, Catch.allMentions, Catch.mentions, hm]

end Host

end Interlingua
