import Interlingua.Tree.Similar

namespace Interlingua

mutual

/-- A normal form has no groups and no static members, every body of a loop or a conditional in it
is a block, and methods have neither modifiers nor attributes. -/
def Expr.normalize : Expr → Expr
  | .literal source => .literal source
  | .string value => .string value
  | .template body => .template body
  | .identifier name => .identifier name
  | .binary left op right => .binary left.normalize op right.normalize
  | .before op e => .before op e.normalize
  | .after op e => .after op e.normalize
  | .cast typeName e => .cast typeName e.normalize
  | .grouped inner => inner.normalize
  | .member target name _ => .member target.normalize name false
  | .element target index => .element target.normalize (Argument.allNormalize index)
  | .call callee arguments => .call callee.normalize (Argument.allNormalize arguments)
  | .create typeName arguments => .create typeName (Argument.allNormalize arguments)
  | .array elementType elements => .array elementType (Expr.allNormalize elements)
  | .assign target op value => .assign target.normalize op value.normalize
termination_by structural e => e

def Argument.normalize : Argument → Argument
  | ⟨name, value⟩ => ⟨name, Expr.optNormalize value⟩
termination_by structural a => a

def Expr.optNormalize : Option Expr → Option Expr
  | none => none
  | some e => some e.normalize
termination_by structural e => e

def Expr.allNormalize : List Expr → List Expr
  | [] => []
  | e :: es => e.normalize :: Expr.allNormalize es
termination_by structural es => es

def Argument.allNormalize : List Argument → List Argument
  | [] => []
  | a :: as => a.normalize :: Argument.allNormalize as
termination_by structural as => as

end

def Stmt.asBlock (s : Stmt) : Stmt := .block s.statements

mutual

def Stmt.normalize : Stmt → Stmt
  | .expr e => .expr e.normalize
  | .block body => .block (Stmt.allNormalize body)
  | .declare typeName name initializer => .declare typeName name initializer.normalize
  | .method signature body =>
    .method { signature with modifiers := [], attributes := [] } (Stmt.allNormalize body)
  | .conditional condition body rest =>
    .conditional condition.normalize body.normalize.asBlock rest.normalize
  | .forLoop initializer condition step body =>
    .forLoop (Stmt.optNormalize initializer) (Expr.optNormalize condition)
      (Expr.optNormalize step) body.normalize.asBlock
  | .forEach item iterable body => .forEach item iterable.normalize body.normalize.asBlock
  | .whileLoop condition body => .whileLoop condition.normalize body.normalize.asBlock
  | .breakLoop => .breakLoop
  | .continueLoop => .continueLoop
  | .ret value => .ret (Expr.optNormalize value)
  | .guarded body catches final =>
    .guarded (Stmt.allNormalize body) (Catch.allNormalize catches) (Stmt.optAllNormalize final)
termination_by structural s => s

def Else.normalize : Else → Else
  | .absent => .absent
  | .elseIf condition body rest =>
    .elseIf condition.normalize body.normalize.asBlock rest.normalize
  | .block body => .block (Stmt.allNormalize body)
termination_by structural r => r

def Catch.normalize : Catch → Catch
  | ⟨typeName, body⟩ => ⟨typeName, Stmt.allNormalize body⟩
termination_by structural c => c

def Stmt.optNormalize : Option Stmt → Option Stmt
  | none => none
  | some s => some s.normalize
termination_by structural s => s

def Stmt.allNormalize : List Stmt → List Stmt
  | [] => []
  | s :: ss => s.normalize :: Stmt.allNormalize ss
termination_by structural ss => ss

def Stmt.optAllNormalize : Option (List Stmt) → Option (List Stmt)
  | none => none
  | some body => some (Stmt.allNormalize body)
termination_by structural b => b

def Catch.allNormalize : List Catch → List Catch
  | [] => []
  | c :: cs => c.normalize :: Catch.allNormalize cs
termination_by structural cs => cs

end

def Node.normalize : Node → Node
  | .stmt s => .stmt s.normalize
  | .expr e => .stmt (.expr e.normalize)

theorem Expr.normalize_ungrouped (e : Expr) : e.ungrouped.normalize = e.normalize := by
  fun_induction ungrouped e with
  | case1 inner ih => exact ih
  | case2 => rfl

theorem Expr.ungrouped_ne_grouped (e inner : Expr) : e.ungrouped ≠ grouped inner := by
  fun_induction ungrouped e with
  | case1 inner ih => exact ih
  | case2 e h => exact h inner

mutual

theorem Expr.similar_iff (a b : Expr) : a.similar b = true ↔ a.normalize = b.normalize := by
  have hb := b.ungrouped_ne_grouped
  rw [← b.normalize_ungrouped]
  cases a with
  | grouped inner =>
    rw [Expr.similar, Expr.similar_iff inner b, b.normalize_ungrouped, Expr.normalize]
  | _ =>
    simp only [Expr.similar]
    generalize b.ungrouped = b at hb
    cases b with
    | grouped inner => exact absurd rfl (hb inner)
    | _ =>
      simp [Expr.normalize, Expr.similar_iff, Argument.allSimilar_iff, Expr.allSimilar_iff,
        and_assoc, and_left_comm, and_comm]
termination_by structural a

theorem Argument.similar_iff (a b : Argument) :
    a.similar b = true ↔ a.normalize = b.normalize := by
  obtain ⟨name, value⟩ := a
  obtain ⟨name', value'⟩ := b
  simp only [Argument.similar, Argument.normalize, Bool.and_eq_true, beq_iff_eq,
    Expr.optSimilar_iff value value', Argument.mk.injEq]
termination_by structural a

theorem Expr.optSimilar_iff (a b : Option Expr) :
    Expr.optSimilar a b = true ↔ Expr.optNormalize a = Expr.optNormalize b := by
  cases a <;> cases b <;> simp [Expr.optSimilar, Expr.optNormalize, Expr.similar_iff]
termination_by structural a

theorem Expr.allSimilar_iff (a b : List Expr) :
    Expr.allSimilar a b = true ↔ Expr.allNormalize a = Expr.allNormalize b := by
  cases a <;> cases b <;>
    simp [Expr.allSimilar, Expr.allNormalize, Expr.similar_iff, Expr.allSimilar_iff]
termination_by structural a

theorem Argument.allSimilar_iff (a b : List Argument) :
    Argument.allSimilar a b = true ↔ Argument.allNormalize a = Argument.allNormalize b := by
  cases a <;> cases b <;>
    simp [Argument.allSimilar, Argument.allNormalize, Argument.similar_iff,
      Argument.allSimilar_iff]
termination_by structural a

end

theorem Stmt.asBlock_normalize (s : Stmt) :
    s.normalize.asBlock = .block (Stmt.allNormalize s.statements) := by
  cases s <;> rfl

theorem Stmt.statements_eq_singleton {s : Stmt} (h : ∀ ss, s ≠ .block ss) : s.statements = [s] := by
  cases s with
  | block ss => exact absurd rfl (h ss)
  | _ => rfl

/-- Bodies are compared as the blocks they can be written as. -/
theorem Stmt.counterpart_similar_iff {body : Stmt} (other : Stmt)
    (h : ∀ s, body.similar s = true ↔ body.normalize = s.normalize) :
    (body.counterpart other).any (body.similar ·) = true ↔
      body.normalize.asBlock = other.normalize.asBlock := by
  rw [body.asBlock_normalize, other.asBlock_normalize]
  unfold counterpart
  split
  · next ss hs => exact h (.block other.statements)
  · next s hb hs =>
    rw [statements_eq_singleton fun ss hss => hb ss hss, hs]
    simp [allNormalize, h]
  · next hb hs =>
    rw [statements_eq_singleton fun ss hss => hb ss hss]
    match ho : other.statements with
    | [s] => exact (hs s ho).elim
    | [] | _ :: _ :: _ => simp [allNormalize]

mutual

theorem Stmt.similar_iff (a b : Stmt) : a.similar b = true ↔ a.normalize = b.normalize := by
  cases a with
  | conditional condition body rest =>
    cases b with
    | conditional condition' body' rest' =>
      have hb := body.counterpart_similar_iff body' fun s => Stmt.similar_iff body s
      simp only [Stmt.similar, Stmt.normalize, Bool.and_eq_true, condition.similar_iff, hb,
        Else.similar_iff rest rest', Stmt.conditional.injEq, and_assoc]
    | _ => simp [Stmt.similar, Stmt.normalize]
  | forLoop initializer condition step body =>
    cases b with
    | forLoop initializer' condition' step' body' =>
      have hb := body.counterpart_similar_iff body' fun s => Stmt.similar_iff body s
      simp only [Stmt.similar, Stmt.normalize, Bool.and_eq_true, Expr.optSimilar_iff, hb,
        Stmt.optSimilar_iff initializer initializer', Stmt.forLoop.injEq, and_assoc]
    | _ => simp [Stmt.similar, Stmt.normalize]
  | forEach item iterable body =>
    cases b with
    | forEach item' iterable' body' =>
      have hb := body.counterpart_similar_iff body' fun s => Stmt.similar_iff body s
      simp only [Stmt.similar, Stmt.normalize, Bool.and_eq_true, beq_iff_eq, Expr.similar_iff, hb,
        Stmt.forEach.injEq, and_assoc]
    | _ => simp [Stmt.similar, Stmt.normalize]
  | whileLoop condition body =>
    cases b with
    | whileLoop condition' body' =>
      have hb := body.counterpart_similar_iff body' fun s => Stmt.similar_iff body s
      simp only [Stmt.similar, Stmt.normalize, Bool.and_eq_true, Expr.similar_iff, hb,
        Stmt.whileLoop.injEq]
    | _ => simp [Stmt.similar, Stmt.normalize]
  | _ =>
    cases b <;>
      simp [Stmt.similar, Stmt.normalize, Expr.similar_iff, Expr.optSimilar_iff,
        Stmt.allSimilar_iff, Catch.allSimilar_iff, Stmt.optAllSimilar_iff, and_assoc]
termination_by structural a

theorem Else.similar_iff (a b : Else) : a.similar b = true ↔ a.normalize = b.normalize := by
  cases a with
  | elseIf condition body rest =>
    cases b with
    | elseIf condition' body' rest' =>
      have hb := body.counterpart_similar_iff body' fun s => Stmt.similar_iff body s
      simp only [Else.similar, Else.normalize, Bool.and_eq_true, Expr.similar_iff, hb,
        Else.similar_iff rest rest', Else.elseIf.injEq, and_assoc]
    | _ => simp [Else.similar, Else.normalize]
  | absent | block body => cases b <;> simp [Else.similar, Else.normalize, Stmt.allSimilar_iff]
termination_by structural a

theorem Catch.similar_iff (a b : Catch) : a.similar b = true ↔ a.normalize = b.normalize := by
  obtain ⟨typeName, body⟩ := a
  obtain ⟨typeName', body'⟩ := b
  simp only [Catch.similar, Catch.normalize, Bool.and_eq_true, beq_iff_eq,
    Stmt.allSimilar_iff body body', Catch.mk.injEq]
termination_by structural a

theorem Stmt.optSimilar_iff (a b : Option Stmt) :
    Stmt.optSimilar a b = true ↔ Stmt.optNormalize a = Stmt.optNormalize b := by
  cases a <;> cases b <;> simp [Stmt.optSimilar, Stmt.optNormalize, Stmt.similar_iff]
termination_by structural a

theorem Stmt.allSimilar_iff (a b : List Stmt) :
    Stmt.allSimilar a b = true ↔ Stmt.allNormalize a = Stmt.allNormalize b := by
  cases a <;> cases b <;>
    simp [Stmt.allSimilar, Stmt.allNormalize, Stmt.similar_iff, Stmt.allSimilar_iff]
termination_by structural a

theorem Stmt.optAllSimilar_iff (a b : Option (List Stmt)) :
    Stmt.optAllSimilar a b = true ↔ Stmt.optAllNormalize a = Stmt.optAllNormalize b := by
  cases a <;> cases b <;> simp [Stmt.optAllSimilar, Stmt.optAllNormalize, Stmt.allSimilar_iff]
termination_by structural a

theorem Catch.allSimilar_iff (a b : List Catch) :
    Catch.allSimilar a b = true ↔ Catch.allNormalize a = Catch.allNormalize b := by
  cases a <;> cases b <;>
    simp [Catch.allSimilar, Catch.allNormalize, Catch.similar_iff, Catch.allSimilar_iff]
termination_by structural a

end

theorem Node.similar_iff (a b : Node) : a.similar b = true ↔ a.normalize = b.normalize := by
  have hn (n : Node) : n.normalize = .stmt n.toStmt.normalize := by cases n <;> rfl
  rw [Node.similar, Stmt.similar_iff, hn a, hn b, Node.stmt.injEq]

/-- Two trees are similar if and only if they have the same normal form; hence similarity is an
equivalence. -/
theorem Node.similar_normalForm :
    (∀ a b : Node, a.similar b = true ↔ a.normalize = b.normalize) ∧
      Equivalence fun a b : Node => a.similar b = true := by
  refine ⟨Node.similar_iff, ?_, ?_, ?_⟩
  · intro a
    exact (Node.similar_iff a a).mpr rfl
  · intro a b h
    exact (Node.similar_iff b a).mpr ((Node.similar_iff a b).mp h).symm
  · intro a b c hab hbc
    have h := ((Node.similar_iff a b).mp hab).trans ((Node.similar_iff b c).mp hbc)
    exact (Node.similar_iff a c).mpr h

end Interlingua
