import Interlingua.Host.Conversion

namespace Interlingua

mutual

/-- The leaves in reading order: the texts of constants, strings, templates and names, the names
that are declared and those that range over a loop. -/
def Expr.leaves : Expr → List String
  | .literal text | .string text | .template text | .identifier text => [text]
  | .binary left _ right => left.leaves ++ right.leaves
  | .before _ e | .after _ e | .cast _ e | .grouped e | .member e _ _ => e.leaves
  | .element target index => target.leaves ++ Argument.allLeaves index
  | .call callee arguments => callee.leaves ++ Argument.allLeaves arguments
  | .create _ arguments => Argument.allLeaves arguments
  | .array _ elements => Expr.allLeaves elements
  | .assign target _ value => target.leaves ++ value.leaves
termination_by structural e => e

def Argument.leaves : Argument → List String
  | ⟨_, value⟩ => Expr.optLeaves value
termination_by structural a => a

def Expr.optLeaves : Option Expr → List String
  | none => []
  | some e => e.leaves
termination_by structural e => e

def Expr.allLeaves : List Expr → List String
  | [] => []
  | e :: es => e.leaves ++ Expr.allLeaves es
termination_by structural es => es

def Argument.allLeaves : List Argument → List String
  | [] => []
  | a :: as => a.leaves ++ Argument.allLeaves as
termination_by structural as => as

end

def Signature.leaves (s : Signature) : List String :=
  s.attributes.flatMap fun a => Argument.allLeaves a.arguments

mutual

def Stmt.leaves : Stmt → List String
  | .expr e => e.leaves
  | .block body => Stmt.allLeaves body
  | .declare _ name initializer => name :: initializer.leaves
  | .method signature body => signature.leaves ++ Stmt.allLeaves body
  | .conditional condition body rest => condition.leaves ++ (body.leaves ++ rest.leaves)
  | .forLoop initializer condition step body =>
    Stmt.optLeaves initializer ++
      (Expr.optLeaves condition ++ (Expr.optLeaves step ++ body.leaves))
  | .forEach item iterable body => item :: (iterable.leaves ++ body.leaves)
  | .whileLoop condition body => condition.leaves ++ body.leaves
  | .breakLoop | .continueLoop => []
  | .ret value => Expr.optLeaves value
  | .guarded body catches final =>
    Stmt.allLeaves body ++ (Catch.allLeaves catches ++ Stmt.optAllLeaves final)
termination_by structural s => s

def Else.leaves : Else → List String
  | .absent => []
  | .elseIf condition body rest => condition.leaves ++ (body.leaves ++ rest.leaves)
  | .block body => Stmt.allLeaves body
termination_by structural r => r

def Catch.leaves : Catch → List String
  | ⟨_, body⟩ => Stmt.allLeaves body
termination_by structural c => c

def Stmt.optLeaves : Option Stmt → List String
  | none => []
  | some s => s.leaves
termination_by structural s => s

def Stmt.allLeaves : List Stmt → List String
  | [] => []
  | s :: ss => s.leaves ++ Stmt.allLeaves ss
termination_by structural ss => ss

def Stmt.optAllLeaves : Option (List Stmt) → List String
  | none => []
  | some body => Stmt.allLeaves body
termination_by structural b => b

def Catch.allLeaves : List Catch → List String
  | [] => []
  | c :: cs => c.leaves ++ Catch.allLeaves cs
termination_by structural cs => cs

end

def Node.leaves : Node → List String
  | .stmt s => s.leaves
  | .expr e => e.leaves

theorem Argument.leaves_eq (a : Argument) : a.leaves = Expr.optLeaves a.value := by
  cases a
  rfl

theorem Expr.allLeaves_eq (es : List Expr) : Expr.allLeaves es = es.flatMap Expr.leaves := by
  induction es with
  | nil => rfl
  | cons e es ih => rw [Expr.allLeaves, List.flatMap_cons, ih]

theorem Argument.allLeaves_eq (as : List Argument) :
    Argument.allLeaves as = as.flatMap Argument.leaves := by
  induction as with
  | nil => rfl
  | cons a as ih => rw [Argument.allLeaves, List.flatMap_cons, ih]

theorem Argument.allLeaves_positional (es : List Expr) :
    Argument.allLeaves (es.map .positional) = Expr.allLeaves es := by
  rw [Argument.allLeaves_eq, Expr.allLeaves_eq, List.flatMap_map]
  rfl

theorem Argument.allLeaves_attachValues (as : List Argument) :
    Argument.allLeaves (attachValues as) = Argument.allLeaves as := by
  have hleaves (a : Argument) : a.leaves = [] ++ Expr.optLeaves a.value := a.leaves_eq
  rw [Argument.allLeaves_eq, Argument.allLeaves_eq]
  exact flatMap_attachValues (fun _ => []) hleaves rfl rfl as

theorem Stmt.allLeaves_statements (s : Stmt) : Stmt.allLeaves s.statements = s.leaves := by
  cases s with
  | block body => rfl
  | _ => exact List.append_nil _

def Link.leaves (link : Link) : List String := link.condition.leaves ++ link.body.leaves

theorem Else.leaves_ofLinks (final : Option (List Stmt)) (links : List Link) :
    (Else.ofLinks final links).leaves = links.flatMap Link.leaves ++ Stmt.optAllLeaves final := by
  induction links with
  | nil => cases final <;> rfl
  | cons link links ih =>
    simp only [Else.ofLinks, Else.leaves, ih, List.flatMap_cons, Link.leaves, List.append_assoc]

theorem Clauses.leaves_link (clauses : Clauses) :
    clauses.link.toStmt.leaves =
      clauses.first.leaves ++ (clauses.elseIfs.flatMap Link.leaves ++
        Stmt.optAllLeaves clauses.final) := by
  simp only [link, Conditional.toStmt, Stmt.leaves, Else.leaves_ofLinks, Link.leaves,
    List.append_assoc]

theorem Catch.allLeaves_append (cs ds : List Catch) :
    Catch.allLeaves (cs ++ ds) = Catch.allLeaves cs ++ Catch.allLeaves ds := by
  induction cs with
  | nil => rfl
  | cons c cs ih => simp only [List.cons_append, Catch.allLeaves, ih, List.append_assoc]

namespace Host

mutual

def Ast.leaves : Ast → List String
  | ⟨_, kind⟩ => kind.leaves
termination_by structural a => a

def Kind.leaves : Kind → List String
  | .constant text | .stringConstant text | .expandableString text | .var text
  | .typeExpression text => [text]
  | .scriptBlock _ children | .statementBlock children | .pipeline children | .command children
  | .subExpression children | .arrayLiteral children | .arrayExpression children =>
    Ast.allLeaves children
  | .commandExpression child | .unary _ child | .convert _ child | .member child _ _
  | .paren child => child.leaves
  | .commandParameter _ argument => Ast.optLeaves argument
  | .assignment left _ right | .binary left _ right => left.leaves ++ right.leaves
  | .ifStatement clauses elseClause => IfClause.allLeaves clauses ++ Ast.optLeaves elseClause
  | .whileStatement condition body | .doWhile condition body | .doUntil condition body =>
    condition.leaves ++ body.leaves
  | .forStatement initializer condition step body =>
    Ast.optLeaves initializer ++ (Ast.optLeaves condition ++ (Ast.optLeaves step ++ body.leaves))
  | .forEachStatement item condition body => item.leaves ++ (condition.leaves ++ body.leaves)
  | .returnStatement pipeline | .throwStatement pipeline => Ast.optLeaves pipeline
  | .tryStatement body catches final =>
    body.leaves ++ (CatchClause.allLeaves catches ++ Ast.optLeaves final)
  | .function _ _ body => body.leaves
  | .index target index => target.leaves ++ index.leaves
  | .invokeMember expression _ arguments _ => expression.leaves ++ Ast.allLeaves arguments
  | .breakStatement | .continueStatement | .parameter .. | .switchStatement | .hashtable
  | .scriptBlockExpression | .unknown => []
termination_by structural k => k

def Ast.optLeaves : Option Ast → List String
  | none => []
  | some a => a.leaves
termination_by structural a => a

def Ast.allLeaves : List Ast → List String
  | [] => []
  | a :: as => a.leaves ++ Ast.allLeaves as
termination_by structural as => as

def IfClause.leaves : IfClause → List String
  | ⟨condition, body⟩ => condition.leaves ++ body.leaves
termination_by structural c => c

def IfClause.allLeaves : List IfClause → List String
  | [] => []
  | c :: cs => c.leaves ++ IfClause.allLeaves cs
termination_by structural cs => cs

/-- The body counts once for each type, and once when there are none. -/
def CatchClause.leaves : CatchClause → List String
  | ⟨_, [], body⟩ => body.leaves
  | ⟨_, types, body⟩ => types.flatMap fun _ => body.leaves
termination_by structural c => c

def CatchClause.allLeaves : List CatchClause → List String
  | [] => []
  | c :: cs => c.leaves ++ CatchClause.allLeaves cs
termination_by structural cs => cs

end

theorem leaves_collapse (ss : List Stmt) : (collapse ss).leaves = Stmt.allLeaves ss := by
  match ss with
  | [s] => exact (List.append_nil _).symm
  | [] | _ :: _ :: _ => rfl

theorem allLeaves_flatten (es : List Expr) : Expr.allLeaves (flatten es) = Expr.allLeaves es := by
  rw [Expr.allLeaves_eq, Expr.allLeaves_eq]
  exact flatMap_flatten Expr.allLeaves_eq es

/-- A body that stands for a clause is there once for each of its types. -/
theorem allLeaves_catchesOf {extent : Extent} {types : List String} {body : Ast}
    {block : List Stmt} (h : Stmt.allLeaves block = body.leaves) :
    Catch.allLeaves (catchesOf types block) = (CatchClause.mk extent types body).leaves := by
  have copies (ts : List String) :
      Catch.allLeaves (ts.map fun name => ⟨some name, block⟩) =
        ts.flatMap fun _ => body.leaves := by
    induction ts with
    | nil => rfl
    | cons t ts ih => rw [List.map_cons, Catch.allLeaves, ih, Catch.leaves, h, List.flatMap_cons]
  cases types with
  | nil => rw [catchesOf, Catch.allLeaves, Catch.leaves, h, Catch.allLeaves, List.append_nil]; rfl
  | cons t ts => exact copies (t :: ts)

theorem Ast.leaves_of_declaration? {left : Ast} {operator typeName name : String}
    (h : left.declaration? operator = some (typeName, name)) : left.leaves = [name] := by
  obtain ⟨-, place, inner, rfl⟩ := Ast.eq_of_declaration? h
  rfl

end Host

end Interlingua
