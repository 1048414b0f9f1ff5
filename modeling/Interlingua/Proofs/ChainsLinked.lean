import Interlingua.Tree.Chain

namespace Interlingua

/-- A clause of a chain behind its first condition. -/
inductive Clause where
  | elseIf (condition : Expr) (body : Stmt)
  | final (body : List Stmt)

namespace Clause

def ofLink (link : Link) : Clause := elseIf link.condition link.body

def link? : Clause → Option Link
  | elseIf condition body => some ⟨condition, body⟩
  | final _ => none

def final? : Clause → Option (List Stmt)
  | elseIf _ _ => none
  | final body => some body

theorem filterMap_link?_ofLink (links : List Link) :
    (links.map ofLink).filterMap link? = links := by
  have hlink : link? ∘ ofLink = some := rfl
  rw [List.filterMap_map, hlink, List.filterMap_some]

theorem filterMap_final?_ofLink (links : List Link) :
    (links.map ofLink).filterMap final? = [] := by
  have hfinal : final? ∘ ofLink = fun _ => none := rfl
  rw [List.filterMap_map, hfinal]
  simp

end Clause

namespace Clauses

def give (clauses : Clauses) : Clause → Clauses
  | .elseIf condition body => clauses.elseIf condition body
  | .final body => clauses.withElse body

def giveAll (clauses : Clauses) (given : List Clause) : Clauses := given.foldl give clauses

theorem give_eq (clauses : Clauses) (c : Clause) :
    clauses.give c =
      ⟨clauses.first, clauses.elseIfs ++ c.link?.toList, c.final?.or clauses.final⟩ := by
  cases c with
  | elseIf condition body => rfl
  | final body => simp [give, withElse, Clause.link?, Clause.final?]

theorem giveAll_eq (clauses : Clauses) (given : List Clause) :
    clauses.giveAll given =
      ⟨clauses.first, clauses.elseIfs ++ given.filterMap Clause.link?,
        (given.filterMap Clause.final?).getLast?.or clauses.final⟩ := by
  induction given generalizing clauses with
  | nil => simp [giveAll]
  | cons c given ih =>
    have hrun : clauses.giveAll (c :: given) = (clauses.give c).giveAll given := rfl
    rw [hrun, ih, give_eq]
    cases c with
    | elseIf condition body => simp [Clause.link?, Clause.final?]
    | final body =>
      simp only [Clause.link?, Clause.final?, List.filterMap_cons, List.getLast?_cons]
      cases (given.filterMap Clause.final?).getLast? <;> simp

/-- The chain that is linked of the first link, the other links and then the final block. -/
def relink (final : Option (List Stmt)) : List Link → Option Conditional
  | [] => none
  | first :: rest =>
    some ((start first.condition first.body).giveAll
      (rest.map .ofLink ++ final.toList.map .final)).link

theorem giveAll_links (first : Link) (rest : List Link) (final : Option (List Stmt)) :
    (start first.condition first.body).giveAll (rest.map .ofLink ++ final.toList.map .final) =
      ⟨first, rest, final⟩ := by
  have hlinks : (final.toList.map Clause.final).filterMap Clause.link? = [] := by
    cases final <;> rfl
  have hfinal : (final.toList.map Clause.final).filterMap Clause.final? = final.toList := by
    cases final <;> rfl
  rw [giveAll_eq, List.filterMap_append, List.filterMap_append, Clause.filterMap_link?_ofLink,
    Clause.filterMap_final?_ofLink, hlinks, hfinal, List.append_nil, List.nil_append]
  cases final <;> rfl

theorem relink_links (c : Conditional) : relink c.final? c.links = some c := by
  have hgiven := giveAll_links ⟨c.condition, c.body⟩ c.rest.links c.final?
  exact congrArg some ((congrArg link hgiven).trans (link_links c))

end Clauses

/-- What is read off a chain is what was given, whatever the order of `else if` and `else`: the
links as they came, and the last of the final blocks. What is read off, given again, is linked to
the same chain. -/
theorem Conditional.chain_inverse :
    (∀ (condition : Expr) (body : Stmt) (given : List Clause),
      let built := ((Clauses.start condition body).giveAll given).link
      built.links = ⟨condition, body⟩ :: given.filterMap Clause.link? ∧
        built.final? = (given.filterMap Clause.final?).getLast?) ∧
    ∀ c : Conditional, Clauses.relink c.final? c.links = some c := by
  refine ⟨fun condition body given => ⟨?_, ?_⟩, Clauses.relink_links⟩
  · rw [Clauses.links_link, Clauses.giveAll_eq]
    rfl
  · rw [Clauses.final?_link, Clauses.giveAll_eq]
    exact Option.or_none

example (a b : Expr) :
    ((Clauses.start a .breakLoop).giveAll
        [.final [], .final [.breakLoop], .elseIf b .continueLoop]).link =
      ⟨a, .breakLoop, .elseIf b .continueLoop (.block [.breakLoop])⟩ := rfl

end Interlingua
