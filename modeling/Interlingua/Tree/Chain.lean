import Interlingua.Tree.Stmt

namespace Interlingua

structure Link where
  condition : Expr
  body : Stmt

structure Conditional where
  condition : Expr
  body : Stmt
  rest : Else

namespace Else

def links : Else → List Link
  | elseIf condition body rest => ⟨condition, body⟩ :: rest.links
  | _ => []

def final? : Else → Option (List Stmt)
  | absent => none
  | elseIf _ _ rest => rest.final?
  | block body => some body

/-- The links in order, then the final block. -/
def ofLinks (final : Option (List Stmt)) : List Link → Else
  | [] => match final with
    | none => absent
    | some body => block body
  | link :: links => elseIf link.condition link.body (ofLinks final links)

theorem links_ofLinks (final : Option (List Stmt)) (links : List Link) :
    (ofLinks final links).links = links := by
  induction links with
  | nil => cases final <;> rfl
  | cons link links ih => simp [ofLinks, Else.links, ih]

theorem final?_ofLinks (final : Option (List Stmt)) (links : List Link) :
    (ofLinks final links).final? = final := by
  induction links with
  | nil => cases final <;> rfl
  | cons link links ih => simp [ofLinks, final?, ih]

theorem ofLinks_links : (rest : Else) → ofLinks rest.final? rest.links = rest
  | absent => rfl
  | block _ => rfl
  | elseIf condition body rest => congrArg (elseIf condition body) rest.ofLinks_links

end Else

namespace Conditional

def toStmt (c : Conditional) : Stmt := .conditional c.condition c.body c.rest

/-- This conditional and every `else if` chained to it. -/
def links (c : Conditional) : List Link := ⟨c.condition, c.body⟩ :: c.rest.links

/-- The block of the last `else`, if the chain ends in one. -/
def final? (c : Conditional) : Option (List Stmt) := c.rest.final?

end Conditional

def Stmt.conditional? : Stmt → Option Conditional
  | .conditional condition body rest => some ⟨condition, body, rest⟩
  | _ => none

/-- The clauses of a chain, which become known one by one. -/
structure Clauses where
  first : Link
  elseIfs : List Link
  final : Option (List Stmt)

namespace Clauses

def start (condition : Expr) (body : Stmt) : Clauses := ⟨⟨condition, body⟩, [], none⟩

def elseIf (clauses : Clauses) (condition : Expr) (body : Stmt) : Clauses :=
  { clauses with elseIfs := clauses.elseIfs ++ [⟨condition, body⟩] }

/-- The final block. The last one given counts. -/
def withElse (clauses : Clauses) (body : List Stmt) : Clauses :=
  { clauses with final := some body }

def link (clauses : Clauses) : Conditional :=
  ⟨clauses.first.condition, clauses.first.body, .ofLinks clauses.final clauses.elseIfs⟩

theorem links_link (clauses : Clauses) : clauses.link.links = clauses.first :: clauses.elseIfs := by
  simp [link, Conditional.links, Else.links_ofLinks]

theorem final?_link (clauses : Clauses) : clauses.link.final? = clauses.final := by
  simp [link, Conditional.final?, Else.final?_ofLinks]

theorem link_links (c : Conditional) :
    link ⟨⟨c.condition, c.body⟩, c.rest.links, c.final?⟩ = c :=
  congrArg (Conditional.mk c.condition c.body) c.rest.ofLinks_links

end Clauses

end Interlingua
