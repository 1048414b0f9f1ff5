import Interlingua.Host.Conversion

namespace Interlingua

section

variable (f : Expr → Expr) (g : List Parameter → List Parameter)

mutual

/-- Changes every expression by `f` and the parameters of every method by `g`. -/
def Stmt.map : Stmt → Stmt
  | .expr e => .expr (f e)
  | .block body => .block (Stmt.allMap body)
  | .declare typeName name initializer => .declare typeName name (f initializer)
  | .method s body => .method { s with parameters := g s.parameters } (Stmt.allMap body)
  | .conditional condition body rest => .conditional (f condition) body.map rest.map
  | .forLoop initializer condition step body =>
    .forLoop (Stmt.optMap initializer) (condition.map f) (step.map f) body.map
  | .forEach item iterable body => .forEach item (f iterable) body.map
  | .whileLoop condition body => .whileLoop (f condition) body.map
  | .breakLoop => .breakLoop
  | .continueLoop => .continueLoop
  | .ret value => .ret (value.map f)
  | .guarded body catches final =>
    .guarded (Stmt.allMap body) (Catch.allMap catches) (Stmt.optAllMap final)
termination_by structural s => s

def Else.map : Else → Else
  | .absent => .absent
  | .elseIf condition body rest => .elseIf (f condition) body.map rest.map
  | .block body => .block (Stmt.allMap body)
termination_by structural r => r

def Catch.map : Catch → Catch
  | ⟨typeName, body⟩ => ⟨typeName, Stmt.allMap body⟩
termination_by structural c => c

def Stmt.optMap : Option Stmt → Option Stmt
  | none => none
  | some s => some s.map
termination_by structural s => s

def Stmt.allMap : List Stmt → List Stmt
  | [] => []
  | s :: ss => s.map :: Stmt.allMap ss
termination_by structural ss => ss

def Stmt.optAllMap : Option (List Stmt) → Option (List Stmt)
  | none => none
  | some body => some (Stmt.allMap body)
termination_by structural b => b

def Catch.allMap : List Catch → List Catch
  | [] => []
  | c :: cs => c.map :: Catch.allMap cs
termination_by structural cs => cs

end

def Link.map (l : Link) : Link := ⟨f l.condition, l.body.map f g⟩

def Node.map : Node → Node
  | .stmt s => .stmt (s.map f g)
  | .expr e => .expr (f e)

end

variable {f : Expr → Expr} {g : List Parameter → List Parameter}

theorem Stmt.allMap_eq (ss : List Stmt) : Stmt.allMap f g ss = ss.map (Stmt.map f g) := by
  induction ss with
  | nil => rfl
  | cons s ss ih => rw [Stmt.allMap, List.map_cons, ih]

theorem Catch.allMap_eq (cs : List Catch) : Catch.allMap f g cs = cs.map (Catch.map f g) := by
  induction cs with
  | nil => rfl
  | cons c cs ih => rw [Catch.allMap, List.map_cons, ih]

mutual

theorem Stmt.map_id (s : Stmt) : s.map (fun e => e) id = s := by
  cases s with
  | expr | declare | breakLoop | continueLoop => rfl
  | block body => rw [Stmt.map, Stmt.allMap_id body]
  | method signature body =>
    rw [Stmt.map, Stmt.allMap_id body]
    rfl
  | conditional condition body rest => rw [Stmt.map, body.map_id, rest.map_id]
  | forLoop initializer condition step body =>
    rw [Stmt.map, Stmt.optMap_id initializer, body.map_id, Option.map_id', Option.map_id']
  | forEach item iterable body => rw [Stmt.map, body.map_id]
  | whileLoop condition body => rw [Stmt.map, body.map_id]
  | ret value => rw [Stmt.map, Option.map_id']
  | guarded body catches final =>
    rw [Stmt.map, Stmt.allMap_id body, Catch.allMap_id catches, Stmt.optAllMap_id final]
termination_by structural s

theorem Else.map_id (r : Else) : r.map (fun e => e) id = r := by
  cases r with
  | absent => rfl
  | elseIf condition body rest => rw [Else.map, body.map_id, rest.map_id]
  | block body => rw [Else.map, Stmt.allMap_id body]
termination_by structural r

theorem Catch.map_id (c : Catch) : c.map (fun e => e) id = c := by
  obtain ⟨typeName, body⟩ := c
  rw [Catch.map, Stmt.allMap_id body]
termination_by structural c

theorem Stmt.optMap_id (s : Option Stmt) : Stmt.optMap (fun e => e) id s = s := by
  cases s with
  | none => rfl
  | some s => rw [Stmt.optMap, s.map_id]
termination_by structural s

theorem Stmt.allMap_id (ss : List Stmt) : Stmt.allMap (fun e => e) id ss = ss := by
  cases ss with
  | nil => rfl
  | cons s ss => rw [Stmt.allMap, s.map_id, Stmt.allMap_id ss]
termination_by structural ss

theorem Stmt.optAllMap_id (b : Option (List Stmt)) : Stmt.optAllMap (fun e => e) id b = b := by
  cases b with
  | none => rfl
  | some body => rw [Stmt.optAllMap, Stmt.allMap_id body]
termination_by structural b

theorem Catch.allMap_id (cs : List Catch) : Catch.allMap (fun e => e) id cs = cs := by
  cases cs with
  | nil => rfl
  | cons c cs => rw [Catch.allMap, c.map_id, Catch.allMap_id cs]
termination_by structural cs

end

theorem Stmt.allMap_append (ss ts : List Stmt) :
    Stmt.allMap f g (ss ++ ts) = Stmt.allMap f g ss ++ Stmt.allMap f g ts := by
  simp only [Stmt.allMap_eq, List.map_append]

theorem Catch.allMap_append (cs ds : List Catch) :
    Catch.allMap f g (cs ++ ds) = Catch.allMap f g cs ++ Catch.allMap f g ds := by
  simp only [Catch.allMap_eq, List.map_append]

theorem Stmt.allMap_statements (s : Stmt) :
    Stmt.allMap f g s.statements = (s.map f g).statements := by
  cases s <;> rfl

theorem Else.map_ofLinks (final : Option (List Stmt)) (links : List Link) :
    (ofLinks final links).map f g =
      ofLinks (Stmt.optAllMap f g final) (links.map (Link.map f g)) := by
  induction links with
  | nil => cases final <;> rfl
  | cons l links ih => simp only [ofLinks, Else.map, ih, List.map_cons, Link.map]

theorem Clauses.map_link (clauses : Clauses) :
    clauses.link.toStmt.map f g =
      (link ⟨clauses.first.map f g, clauses.elseIfs.map (Link.map f g),
        Stmt.optAllMap f g clauses.final⟩).toStmt := by
  simp only [link, Conditional.toStmt, Stmt.map, Else.map_ofLinks, Link.map]

namespace Host

theorem map_collapse (ss : List Stmt) :
    (collapse ss).map f g = collapse (Stmt.allMap f g ss) := by
  match ss with
  | [s] => rfl
  | [] | _ :: _ :: _ => rfl

theorem allMap_catchesOf (types : List String) (body : List Stmt) :
    Catch.allMap f g (catchesOf types body) = catchesOf types (Stmt.allMap f g body) := by
  cases types with
  | nil => rfl
  | cons t ts => simp [catchesOf, Catch.allMap_eq, Catch.map]

end Host

end Interlingua
