import Interlingua.Tree.Stmt

namespace Interlingua

mutual

def Expr.same : Expr → Expr → Bool
  | .literal a, .literal b => a == b
  | .string a, .string b => a == b
  | .template a, .template b => a == b
  | .identifier a, .identifier b => a == b
  | .binary l op r, .binary l' op' r' => l.same l' && op == op' && r.same r'
  | .before op e, .before op' e' => op == op' && e.same e'
  | .after op e, .after op' e' => op == op' && e.same e'
  | .cast t e, .cast t' e' => t == t' && e.same e'
  | .grouped e, .grouped e' => e.same e'
  | .member e m s, .member e' m' s' => e.same e' && m == m' && s == s'
  | .element e xs, .element e' xs' => e.same e' && Argument.allSame xs xs'
  | .call e xs, .call e' xs' => e.same e' && Argument.allSame xs xs'
  | .create t xs, .create t' xs' => t == t' && Argument.allSame xs xs'
  | .array t xs, .array t' xs' => t == t' && Expr.allSame xs xs'
  | .assign e op v, .assign e' op' v' => e.same e' && op == op' && v.same v'
  | _, _ => false
termination_by structural e => e

def Argument.same : Argument → Argument → Bool
  | ⟨n, v⟩, ⟨n', v'⟩ => n == n' && Expr.optSame v v'
termination_by structural a => a

def Expr.optSame : Option Expr → Option Expr → Bool
  | none, none => true
  | some e, some e' => e.same e'
  | _, _ => false
termination_by structural e => e

def Expr.allSame : List Expr → List Expr → Bool
  | [], [] => true
  | x :: xs, y :: ys => x.same y && Expr.allSame xs ys
  | _, _ => false
termination_by structural xs => xs

def Argument.allSame : List Argument → List Argument → Bool
  | [], [] => true
  | x :: xs, y :: ys => x.same y && Argument.allSame xs ys
  | _, _ => false
termination_by structural xs => xs

end

mutual

theorem Expr.same_iff (a b : Expr) : a.same b = true ↔ a = b := by
  cases a <;> cases b <;>
    simp [Expr.same, Expr.same_iff, Expr.allSame_iff, Argument.allSame_iff, and_assoc]
termination_by structural a

theorem Argument.same_iff (a b : Argument) : a.same b = true ↔ a = b := by
  cases a; cases b
  simp [Argument.same, Expr.optSame_iff]
termination_by structural a

theorem Expr.optSame_iff (a b : Option Expr) : Expr.optSame a b = true ↔ a = b := by
  cases a <;> cases b <;> simp [Expr.optSame, Expr.same_iff]
termination_by structural a

theorem Expr.allSame_iff (a b : List Expr) : Expr.allSame a b = true ↔ a = b := by
  cases a <;> cases b <;> simp [Expr.allSame, Expr.same_iff, Expr.allSame_iff]
termination_by structural a

theorem Argument.allSame_iff (a b : List Argument) : Argument.allSame a b = true ↔ a = b := by
  cases a <;> cases b <;> simp [Argument.allSame, Argument.same_iff, Argument.allSame_iff]
termination_by structural a

end

instance : DecidableEq Expr := fun a b => decidable_of_iff _ (Expr.same_iff a b)

instance : DecidableEq Argument := fun a b => decidable_of_iff _ (Argument.same_iff a b)

deriving instance DecidableEq for Attribute, Signature

mutual

def Stmt.same : Stmt → Stmt → Bool
  | .expr e, .expr e' => e == e'
  | .block b, .block b' => Stmt.allSame b b'
  | .declare t n e, .declare t' n' e' => t == t' && n == n' && e == e'
  | .method s b, .method s' b' => s == s' && Stmt.allSame b b'
  | .conditional c b r, .conditional c' b' r' => c == c' && b.same b' && r.same r'
  | .forLoop i c s b, .forLoop i' c' s' b' =>
    Stmt.optSame i i' && c == c' && s == s' && b.same b'
  | .forEach x e b, .forEach x' e' b' => x == x' && e == e' && b.same b'
  | .whileLoop c b, .whileLoop c' b' => c == c' && b.same b'
  | .breakLoop, .breakLoop => true
  | .continueLoop, .continueLoop => true
  | .ret e, .ret e' => e == e'
  | .guarded b cs f, .guarded b' cs' f' =>
    Stmt.allSame b b' && Catch.allSame cs cs' && Stmt.optAllSame f f'
  | _, _ => false
termination_by structural s => s

def Else.same : Else → Else → Bool
  | .absent, .absent => true
  | .elseIf c b r, .elseIf c' b' r' => c == c' && b.same b' && r.same r'
  | .block b, .block b' => Stmt.allSame b b'
  | _, _ => false
termination_by structural r => r

def Catch.same : Catch → Catch → Bool
  | ⟨t, b⟩, ⟨t', b'⟩ => t == t' && Stmt.allSame b b'
termination_by structural c => c

def Stmt.optSame : Option Stmt → Option Stmt → Bool
  | none, none => true
  | some s, some s' => s.same s'
  | _, _ => false
termination_by structural s => s

def Stmt.allSame : List Stmt → List Stmt → Bool
  | [], [] => true
  | x :: xs, y :: ys => x.same y && Stmt.allSame xs ys
  | _, _ => false
termination_by structural xs => xs

def Stmt.optAllSame : Option (List Stmt) → Option (List Stmt) → Bool
  | none, none => true
  | some b, some b' => Stmt.allSame b b'
  | _, _ => false
termination_by structural b => b

def Catch.allSame : List Catch → List Catch → Bool
  | [], [] => true
  | x :: xs, y :: ys => x.same y && Catch.allSame xs ys
  | _, _ => false
termination_by structural xs => xs

end

mutual

theorem Stmt.same_iff (a b : Stmt) : a.same b = true ↔ a = b := by
  cases a <;> cases b <;>
    simp [Stmt.same, Stmt.same_iff, Else.same_iff, Stmt.optSame_iff, Stmt.allSame_iff,
      Stmt.optAllSame_iff, Catch.allSame_iff, and_assoc]
termination_by structural a

theorem Else.same_iff (a b : Else) : a.same b = true ↔ a = b := by
  cases a <;> cases b <;>
    simp [Else.same, Stmt.same_iff, Else.same_iff, Stmt.allSame_iff, and_assoc]
termination_by structural a

theorem Catch.same_iff (a b : Catch) : a.same b = true ↔ a = b := by
  cases a; cases b
  simp [Catch.same, Stmt.allSame_iff]
termination_by structural a

theorem Stmt.optSame_iff (a b : Option Stmt) : Stmt.optSame a b = true ↔ a = b := by
  cases a <;> cases b <;> simp [Stmt.optSame, Stmt.same_iff]
termination_by structural a

theorem Stmt.allSame_iff (a b : List Stmt) : Stmt.allSame a b = true ↔ a = b := by
  cases a <;> cases b <;> simp [Stmt.allSame, Stmt.same_iff, Stmt.allSame_iff]
termination_by structural a

theorem Stmt.optAllSame_iff (a b : Option (List Stmt)) :
    Stmt.optAllSame a b = true ↔ a = b := by
  cases a <;> cases b <;> simp [Stmt.optAllSame, Stmt.allSame_iff]
termination_by structural a

theorem Catch.allSame_iff (a b : List Catch) : Catch.allSame a b = true ↔ a = b := by
  cases a <;> cases b <;> simp [Catch.allSame, Catch.same_iff, Catch.allSame_iff]
termination_by structural a

end

instance : DecidableEq Stmt := fun a b => decidable_of_iff _ (Stmt.same_iff a b)

deriving instance DecidableEq for Node

end Interlingua
