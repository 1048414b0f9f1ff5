import Interlingua.Proofs.Mentions
import Interlingua.Proofs.Page.Texts
import Interlingua.Proofs.Printer

namespace Interlingua

variable {p : Char → Bool}

namespace Printer

/-- The parts that do not depend on what is written. -/
def fixedParts (P : Printer) : List Step :=
  P.headEnd ++ P.gap ++ P.tried ++ P.elseIf ++ P.otherwise ++ P.final

/-- Of the characters of the class, each part of the printer writes those of the leaves that it is
given, when labels have none of them. -/
structure KeepsMarks (P : Printer) (p : Char → Bool) : Prop where
  expr (e : Expr) : LabelsAvoid p e.mentions → marks p (P.expr e) = Mention.allMarks p e.mentions
  declaration (typeName name : String) : typeName.toList.filter p = [] →
    marks p (P.declaration typeName name) = name.toList.filter p
  signature (s : Signature) : LabelsAvoid p s.mentions → marks p (P.signature s) = []
  each (item : String) : marks p (P.each item) = item.toList.filter p
  caught (typeName : Option String) : LabelsAvoid p (typeName.toList.map .label) →
    marks p (P.caught typeName) = []
  fixed : marks p P.fixedParts = []

variable {P : Printer}

theorem KeepsMarks.parts (h : P.KeepsMarks p) :
    marks p P.headEnd = [] ∧ marks p P.gap = [] ∧ marks p P.tried = [] ∧ marks p P.elseIf = [] ∧
      marks p P.otherwise = [] ∧ marks p P.final = [] := by
  simpa [fixedParts, and_assoc] using h.fixed

theorem marks_terminator (hp : BeyondAscii p) (ended : Bool) : marks p (terminator ended) = [] := by
  cases ended with
  | false => rfl
  | true => exact (List.append_nil _).trans (hp.filter_ascii (by decide))

theorem marks_mapExpr (h : P.KeepsMarks p) (e : Option Expr)
    (he : LabelsAvoid p (Expr.optMentions e)) :
    marks p ((e.map P.expr).getD []) = Mention.allMarks p (Expr.optMentions e) := by
  cases e with
  | none => rfl
  | some e => exact h.expr e he

theorem marks_body (hp : BeyondAscii p) (h : P.KeepsMarks p) (b : Stmt) (written : List Step) :
    marks p (P.body b written) = marks p written := by
  unfold body
  split <;> simp [h.parts, hp.marks_braces]

mutual

theorem marks_stmt (hp : BeyondAscii p) (h : P.KeepsMarks p) (ended : Bool) (s : Stmt)
    (hs : LabelsAvoid p s.mentions) :
    marks p (P.stmt ended s) = Mention.allMarks p s.mentions := by
  have hend := marks_terminator hp
  have hbody := marks_body hp h
  cases s with
  | expr value => simp [stmt, Stmt.mentions, hend, h.expr value hs]
  | block ss => simp [stmt, Stmt.mentions, hp.marks_braces, marks_lines hp h ended ss hs]
  | declare typeName name initializer =>
    obtain ⟨ht, hs⟩ := LabelsAvoid.cons_iff.mp hs
    have hi := h.expr initializer (LabelsAvoid.cons_iff.mp hs).2
    simp (disch := decide) [stmt, Stmt.mentions, hp.filter_cons, hend, h.declaration _ _ ht, hi]
  | method s ss =>
    obtain ⟨hs, hss⟩ := LabelsAvoid.append_iff.mp hs
    simp [stmt, Stmt.mentions, hp.marks_braces, h.signature s hs, s.allMarks_mentions,
      marks_lines hp h ended ss hss]
  | conditional condition b rest =>
    obtain ⟨hc, hs⟩ := LabelsAvoid.append_iff.mp hs
    obtain ⟨hb, hr⟩ := LabelsAvoid.append_iff.mp hs
    simp (disch := decide) [stmt, Stmt.mentions, hp.filter_cons, hbody, h.parts,
      h.expr condition hc, marks_stmt hp h ended b hb, marks_elseBranch hp h ended rest hr]
  | forLoop initializer condition step b =>
    obtain ⟨hi, hs⟩ := LabelsAvoid.append_iff.mp hs
    obtain ⟨hc, hs⟩ := LabelsAvoid.append_iff.mp hs
    obtain ⟨hs, hb⟩ := LabelsAvoid.append_iff.mp hs
    simp (disch := decide) [stmt, Stmt.mentions, hp.filter_cons, hbody, h.parts,
      marks_header hp h initializer hi, marks_mapExpr h condition hc, marks_mapExpr h step hs,
      marks_stmt hp h ended b hb]
  | forEach item iterable b =>
    obtain ⟨-, hs⟩ := LabelsAvoid.cons_iff.mp hs
    obtain ⟨hi, hb⟩ := LabelsAvoid.append_iff.mp hs
    simp [stmt, Stmt.mentions, hbody, h.parts, h.each, h.expr iterable hi,
      marks_stmt hp h ended b hb]
  | whileLoop condition b =>
    obtain ⟨hc, hb⟩ := LabelsAvoid.append_iff.mp hs
    simp (disch := decide) [stmt, Stmt.mentions, hp.filter_cons, hbody, h.parts,
      h.expr condition hc, marks_stmt hp h ended b hb]
  | breakLoop | continueLoop =>
    simp (disch := decide) [stmt, Stmt.mentions, hp.filter_cons, hend]
  | ret value =>
    cases value with
    | none => simp (disch := decide) [stmt, Stmt.mentions, Expr.optMentions, hp.filter_cons, hend]
    | some e =>
      simp (disch := decide) [stmt, Stmt.mentions, Expr.optMentions, hp.filter_cons, hend,
        h.expr e hs]
  | guarded ss cs final =>
    obtain ⟨hss, hs⟩ := LabelsAvoid.append_iff.mp hs
    obtain ⟨hc, hf⟩ := LabelsAvoid.append_iff.mp hs
    simp [stmt, Stmt.mentions, h.parts, hp.marks_braces, marks_lines hp h ended ss hss,
      marks_catches hp h ended cs hc, marks_finally hp h ended final hf]
termination_by structural s

theorem marks_header (hp : BeyondAscii p) (h : P.KeepsMarks p) (s : Option Stmt)
    (hs : LabelsAvoid p (Stmt.optMentions s)) :
    marks p (P.header s) = Mention.allMarks p (Stmt.optMentions s) := by
  cases s with
  | none => rfl
  | some s => exact marks_stmt hp h false s hs
termination_by structural s

theorem marks_elseBranch (hp : BeyondAscii p) (h : P.KeepsMarks p) (ended : Bool) (r : Else)
    (hr : LabelsAvoid p r.mentions) :
    marks p (P.elseBranch ended r) = Mention.allMarks p r.mentions := by
  cases r with
  | absent => rfl
  | elseIf condition b rest =>
    obtain ⟨hc, hr⟩ := LabelsAvoid.append_iff.mp hr
    obtain ⟨hb, hr⟩ := LabelsAvoid.append_iff.mp hr
    simp [elseBranch, Else.mentions, h.parts, marks_body hp h, h.expr condition hc,
      marks_stmt hp h ended b hb, marks_elseBranch hp h ended rest hr]
  | block ss =>
    simp [elseBranch, Else.mentions, h.parts, hp.marks_braces, marks_lines hp h ended ss hr]
termination_by structural r

theorem marks_catchClause (hp : BeyondAscii p) (h : P.KeepsMarks p) (ended : Bool) (c : Catch)
    (hc : LabelsAvoid p c.mentions) :
    marks p (P.catchClause ended c) = Mention.allMarks p c.mentions := by
  obtain ⟨typeName, ss⟩ := c
  obtain ⟨ht, hs⟩ := LabelsAvoid.append_iff.mp hc
  have hs := marks_lines hp h ended ss hs
  cases typeName <;>
    simp [catchClause, Catch.mentions, h.caught _ ht, hp.marks_braces, hs]
termination_by structural c

theorem marks_catches (hp : BeyondAscii p) (h : P.KeepsMarks p) (ended : Bool) (cs : List Catch)
    (hcs : LabelsAvoid p (Catch.allMentions cs)) :
    marks p (P.catches ended cs) = Mention.allMarks p (Catch.allMentions cs) := by
  cases cs with
  | nil => rfl
  | cons c cs =>
    obtain ⟨hc, hcs⟩ := LabelsAvoid.append_iff.mp hcs
    simp [catches, Catch.allMentions, marks_catchClause hp h ended c hc,
      marks_catches hp h ended cs hcs]
termination_by structural cs

theorem marks_finally (hp : BeyondAscii p) (h : P.KeepsMarks p) (ended : Bool)
    (f : Option (List Stmt)) (hf : LabelsAvoid p (Stmt.optAllMentions f)) :
    marks p (P.finally? ended f) = Mention.allMarks p (Stmt.optAllMentions f) := by
  cases f with
  | none => rfl
  | some ss =>
    simp [finally?, Stmt.optAllMentions, h.parts, hp.marks_braces, marks_lines hp h ended ss hf]
termination_by structural f

theorem marks_lines (hp : BeyondAscii p) (h : P.KeepsMarks p) (ended : Bool) (ss : List Stmt)
    (hss : LabelsAvoid p (Stmt.allMentions ss)) :
    marks p (P.lines ended ss) = Mention.allMarks p (Stmt.allMentions ss) := by
  cases ss with
  | nil => rfl
  | cons s ss =>
    obtain ⟨hs, hss⟩ := LabelsAvoid.append_iff.mp hss
    simp [lines, Stmt.allMentions, marks_stmt hp h ended s hs, marks_lines hp h ended ss hss]
termination_by structural ss

end

theorem marks_flatMap_stmt (ended : Bool) (ss : List Stmt) :
    marks p (ss.flatMap fun s => P.stmt ended s ++ [.newline]) = marks p (P.lines ended ss) := by
  induction ss with
  | nil => rfl
  | cons s ss ih => simp [lines, ih]

theorem marks_node (hp : BeyondAscii p) (h : P.KeepsMarks p) (ended : Bool) (n : Node)
    (hn : LabelsAvoid p n.mentions) :
    marks p (P.node ended n) = Mention.allMarks p n.mentions := by
  unfold node
  split
  · next ss => exact (marks_flatMap_stmt ended ss).trans (marks_lines hp h ended ss hn)
  · next s _ => simp [Node.mentions, marks_stmt hp h ended s hn]
  · next e => exact h.expr e hn

end Printer

end Interlingua
