import Interlingua.Tree.Equality

namespace Interlingua

mutual

/-- Two trees are similar when they differ in nothing but what languages write differently without
changing the meaning: grouping, a body that is a single statement or a block of that statement,
modifiers and attributes of a method, and the spelling of static members. -/
def Expr.similar : Expr → Expr → Bool
  | .grouped a, b => a.similar b
  | .literal a, b => match b.ungrouped with
    | .literal b => a == b
    | _ => false
  | .string a, b => match b.ungrouped with
    | .string b => a == b
    | _ => false
  | .template a, b => match b.ungrouped with
    | .template b => a == b
    | _ => false
  | .identifier a, b => match b.ungrouped with
    | .identifier b => a == b
    | _ => false
  | .binary l op r, b => match b.ungrouped with
    | .binary l' op' r' => op == op' && l.similar l' && r.similar r'
    | _ => false
  | .before op e, b => match b.ungrouped with
    | .before op' e' => op == op' && e.similar e'
    | _ => false
  | .after op e, b => match b.ungrouped with
    | .after op' e' => op == op' && e.similar e'
    | _ => false
  | .cast t e, b => match b.ungrouped with
    | .cast t' e' => t == t' && e.similar e'
    | _ => false
  | .member e m _, b => match b.ungrouped with
    | .member e' m' _ => m == m' && e.similar e'
    | _ => false
  | .element e xs, b => match b.ungrouped with
    | .element e' xs' => e.similar e' && Argument.allSimilar xs xs'
    | _ => false
  | .call e xs, b => match b.ungrouped with
    | .call e' xs' => e.similar e' && Argument.allSimilar xs xs'
    | _ => false
  | .create t xs, b => match b.ungrouped with
    | .create t' xs' => t == t' && Argument.allSimilar xs xs'
    | _ => false
  | .array t xs, b => match b.ungrouped with
    | .array t' xs' => t == t' && Expr.allSimilar xs xs'
    | _ => false
  | .assign e op v, b => match b.ungrouped with
    | .assign e' op' v' => op == op' && e.similar e' && v.similar v'
    | _ => false
termination_by structural e => e

def Argument.similar : Argument → Argument → Bool
  | ⟨n, v⟩, ⟨n', v'⟩ => n == n' && Expr.optSimilar v v'
termination_by structural a => a

def Expr.optSimilar : Option Expr → Option Expr → Bool
  | none, none => true
  | some e, some e' => e.similar e'
  | _, _ => false
termination_by structural e => e

def Expr.allSimilar : List Expr → List Expr → Bool
  | [], [] => true
  | x :: xs, y :: ys => x.similar y && Expr.allSimilar xs ys
  | _, _ => false
termination_by structural xs => xs

def Argument.allSimilar : List Argument → List Argument → Bool
  | [], [] => true
  | x :: xs, y :: ys => x.similar y && Argument.allSimilar xs ys
  | _, _ => false
termination_by structural xs => xs

end

/-- What a body is compared with: a block with a block, a single statement with the one
statement of the other body. -/
def Stmt.counterpart (body other : Stmt) : Option Stmt :=
  match body, other.statements with
  | .block _, ss => some (.block ss)
  | _, [s] => some s
  | _, _ => none

mutual

def Stmt.similar : Stmt → Stmt → Bool
  | .expr e, .expr e' => e.similar e'
  | .block b, .block b' => Stmt.allSimilar b b'
  | .declare t n e, .declare t' n' e' => t == t' && n == n' && e.similar e'
  | .method s b, .method s' b' =>
    s.name == s'.name && s.parameters == s'.parameters && Stmt.allSimilar b b'
  | .conditional c b r, .conditional c' b' r' =>
    c.similar c' && (b.counterpart b').any (b.similar ·) && r.similar r'
  | .forLoop i c s b, .forLoop i' c' s' b' =>
    Stmt.optSimilar i i' && Expr.optSimilar c c' && Expr.optSimilar s s' &&
      (b.counterpart b').any (b.similar ·)
  | .forEach x e b, .forEach x' e' b' =>
    x == x' && e.similar e' && (b.counterpart b').any (b.similar ·)
  | .whileLoop c b, .whileLoop c' b' => c.similar c' && (b.counterpart b').any (b.similar ·)
  | .breakLoop, .breakLoop => true
  | .continueLoop, .continueLoop => true
  | .ret e, .ret e' => Expr.optSimilar e e'
  | .guarded b cs f, .guarded b' cs' f' =>
    Stmt.allSimilar b b' && Catch.allSimilar cs cs' && Stmt.optAllSimilar f f'
  | _, _ => false
termination_by structural s => s

def Else.similar : Else → Else → Bool
  | .absent, .absent => true
  | .elseIf c b r, .elseIf c' b' r' =>
    c.similar c' && (b.counterpart b').any (b.similar ·) && r.similar r'
  | .block b, .block b' => Stmt.allSimilar b b'
  | _, _ => false
termination_by structural r => r

def Catch.similar : Catch → Catch → Bool
  | ⟨t, b⟩, ⟨t', b'⟩ => t == t' && Stmt.allSimilar b b'
termination_by structural c => c

def Stmt.optSimilar : Option Stmt → Option Stmt → Bool
  | none, none => true
  | some s, some s' => s.similar s'
  | _, _ => false
termination_by structural s => s

def Stmt.allSimilar : List Stmt → List Stmt → Bool
  | [], [] => true
  | x :: xs, y :: ys => x.similar y && Stmt.allSimilar xs ys
  | _, _ => false
termination_by structural xs => xs

def Stmt.optAllSimilar : Option (List Stmt) → Option (List Stmt) → Bool
  | none, none => true
  | some b, some b' => Stmt.allSimilar b b'
  | _, _ => false
termination_by structural b => b

def Catch.allSimilar : List Catch → List Catch → Bool
  | [], [] => true
  | x :: xs, y :: ys => x.similar y && Catch.allSimilar xs ys
  | _, _ => false
termination_by structural xs => xs

end

/-- A bare expression is similar to the statement that evaluates it. -/
def Node.similar (a b : Node) : Bool := a.toStmt.similar b.toStmt

end Interlingua
