import Interlingua.Proofs.Leaves
import Interlingua.Proofs.Supported

namespace Interlingua.Host

def Kind.children : Kind → List Placed
  | .scriptBlock _ children | .statementBlock children => children.map (⟨.statement, ·⟩)
  | .pipeline children | .subExpression children | .arrayLiteral children
  | .arrayExpression children => children.map (⟨.value, ·⟩)
  | .command [] => []
  | .command (head :: rest) => ⟨.value, head⟩ :: rest.map (⟨.element, ·⟩)
  | .commandExpression child | .unary _ child | .convert _ child | .member child _ _
  | .paren child => [⟨.value, child⟩]
  | .commandParameter _ argument => argument.toList.map (⟨.value, ·⟩)
  | .assignment left _ right | .binary left _ right => [⟨.value, left⟩, ⟨.value, right⟩]
  | .ifStatement clauses elseClause =>
    clauses.flatMap (fun c => [⟨.value, c.condition⟩, ⟨.statement, c.body⟩]) ++
      elseClause.toList.map (⟨.block, ·⟩)
  | .whileStatement condition body | .doWhile condition body | .doUntil condition body =>
    [⟨.value, condition⟩, ⟨.statement, body⟩]
  | .forStatement initializer condition step body =>
    initializer.toList.map (⟨.statement, ·⟩) ++ (condition.toList.map (⟨.value, ·⟩) ++
      (step.toList.map (⟨.value, ·⟩) ++ [⟨.statement, body⟩]))
  | .forEachStatement item condition body =>
    [⟨.value, item⟩, ⟨.value, condition⟩, ⟨.statement, body⟩]
  | .returnStatement value | .throwStatement value => value.toList.map (⟨.value, ·⟩)
  | .tryStatement body catches final =>
    ⟨.block, body⟩ :: (catches.map (⟨.block, ·.body⟩) ++ final.toList.map (⟨.block, ·⟩))
  | .function _ _ body => [⟨.block, body⟩]
  | .index target key => [⟨.value, target⟩, ⟨.value, key⟩]
  | .invokeMember expression _ arguments _ =>
    ⟨.value, expression⟩ :: arguments.map (⟨.value, ·⟩)
  | .constant _ | .stringConstant _ | .expandableString _ | .var _ | .typeExpression _
  | .breakStatement | .continueStatement | .parameter .. | .switchStatement | .hashtable
  | .scriptBlockExpression | .unknown => []

/-- A node of the tree, with the nodes above it from its parent up to the root. -/
inductive Below (root : Ast) : List Ast → Placed → Prop
  | root : Below root [] ⟨.statement, root⟩
  | child {above : List Ast} {x c : Placed} :
    Below root above x → c ∈ x.node.kind.children → Below root (x.node :: above) c

theorem Ast.allNodes_eq (place : Place) (as : List Ast) :
    Ast.allNodes place as = as.flatMap (·.nodes place) := by
  induction as with
  | nil => rfl
  | cons a as ih => rw [Ast.allNodes, List.flatMap_cons, ih]

theorem Ast.optNodes_eq (place : Place) (a : Option Ast) :
    Ast.optNodes place a = a.toList.flatMap (·.nodes place) := by
  cases a with
  | none => rfl
  | some a => exact (List.append_nil _).symm

theorem IfClause.allNodes_eq (cs : List IfClause) :
    IfClause.allNodes cs =
      cs.flatMap fun c => c.condition.nodes .value ++ c.body.nodes .statement := by
  induction cs with
  | nil => rfl
  | cons c cs ih =>
    rw [IfClause.allNodes, List.flatMap_cons, ih]
    cases c
    rfl

theorem CatchClause.allNodes_eq (cs : List CatchClause) :
    CatchClause.allNodes cs = cs.flatMap (·.body.nodes .block) := by
  induction cs with
  | nil => rfl
  | cons c cs ih =>
    rw [CatchClause.allNodes, List.flatMap_cons, ih]
    cases c
    rfl

theorem Kind.inner_eq (k : Kind) :
    k.inner = k.children.flatMap fun c => c.node.nodes c.place := by
  cases k with
  | command elements =>
    cases elements <;> simp [Kind.inner, Kind.children, Ast.allNodes_eq, List.flatMap_map]
  | _ =>
    simp [Kind.inner, Kind.children, Ast.allNodes_eq, Ast.optNodes_eq, IfClause.allNodes_eq,
      CatchClause.allNodes_eq, List.flatMap_map, List.flatMap_assoc]

theorem Ast.allLeaves_eq (as : List Ast) : Ast.allLeaves as = as.flatMap Ast.leaves := by
  induction as with
  | nil => rfl
  | cons a as ih => rw [Ast.allLeaves, List.flatMap_cons, ih]

theorem Ast.optLeaves_eq (a : Option Ast) : Ast.optLeaves a = a.toList.flatMap Ast.leaves := by
  cases a with
  | none => rfl
  | some a => exact (List.append_nil _).symm

theorem IfClause.allLeaves_eq (cs : List IfClause) :
    IfClause.allLeaves cs = cs.flatMap fun c => c.condition.leaves ++ c.body.leaves := by
  induction cs with
  | nil => rfl
  | cons c cs ih =>
    rw [IfClause.allLeaves, List.flatMap_cons, ih]
    cases c
    rfl

theorem CatchClause.mem_allLeaves {t : String} {cs : List CatchClause} {c : CatchClause}
    (hc : c ∈ cs) (ht : t ∈ c.body.leaves) : t ∈ CatchClause.allLeaves cs := by
  induction cs with
  | nil => cases hc
  | cons d cs ih =>
    rw [CatchClause.allLeaves, List.mem_append]
    obtain rfl | hc := List.mem_cons.mp hc
    · left
      obtain ⟨extent, types, body⟩ := c
      cases types with
      | nil => exact ht
      | cons _ _ => exact List.mem_append_left _ ht
    · exact .inr (ih hc)

theorem Ast.leaves_eq (a : Ast) : a.leaves = a.kind.leaves := by
  cases a
  rfl

theorem Kind.leaves_of_child {k : Kind} {c : Placed} (h : c ∈ k.children) :
    c.node.leaves ⊆ k.leaves := by
  intro t ht
  cases k with
  | constant | stringConstant | expandableString | var | typeExpression | breakStatement
  | continueStatement | parameter | switchStatement | hashtable | scriptBlockExpression
  | unknown => cases h
  | command elements =>
    cases elements with
    | nil => cases h
    | cons head rest =>
      simp only [Kind.children, Kind.leaves, Ast.allLeaves_eq, List.mem_cons, List.mem_map,
        List.mem_flatMap] at h ⊢
      grind
  | tryStatement body catches final =>
    simp only [Kind.children, Kind.leaves, Ast.optLeaves_eq, List.mem_cons, List.mem_append,
      List.mem_map, List.mem_flatMap] at h ⊢
    grind [CatchClause.mem_allLeaves]
  | _ =>
    simp only [Kind.children, Kind.leaves, Ast.allLeaves_eq, Ast.optLeaves_eq,
      IfClause.allLeaves_eq, List.mem_cons, List.mem_append, List.mem_map, List.mem_flatMap] at h ⊢
    grind

theorem Kind.sizeOf_child {k : Kind} {c : Placed} (h : c ∈ k.children) :
    sizeOf c.node < sizeOf k := by
  have hast {a : Ast} {as : List Ast} (ha : a ∈ as) : sizeOf a < sizeOf as :=
    List.sizeOf_lt_of_mem ha
  have hoption {a : Ast} {o : Option Ast} (ha : o = some a) : sizeOf a < sizeOf o := by
    subst ha
    simp
  have hlink {d : IfClause} {ds : List IfClause} (hd : d ∈ ds) :
      sizeOf d.condition < sizeOf ds ∧ sizeOf d.body < sizeOf ds := by
    have := List.sizeOf_lt_of_mem hd
    cases d
    simp at this ⊢
    omega
  have hcatch {d : CatchClause} {ds : List CatchClause} (hd : d ∈ ds) :
      sizeOf d.body < sizeOf ds := by
    have := List.sizeOf_lt_of_mem hd
    cases d
    simp at this ⊢
    omega
  cases k with
  | constant | stringConstant | expandableString | var | typeExpression | breakStatement
  | continueStatement | parameter | switchStatement | hashtable | scriptBlockExpression
  | unknown => cases h
  | command elements =>
    cases elements with
    | nil => cases h
    | cons head rest =>
      simp only [Kind.children, List.mem_cons, List.mem_map] at h
      simp only [Kind.command.sizeOf_spec, List.cons.sizeOf_spec]
      grind
  | _ =>
    simp only [Kind.children, List.mem_cons, List.mem_append, List.mem_map, Option.mem_toList,
      List.mem_flatMap, List.not_mem_nil, or_false] at h
    simp
    grind

/-- What passes from the nodes right below a node to it holds of every node. -/
theorem Ast.induction_children {motive : Ast → Prop}
    (step : ∀ a, (∀ c ∈ a.kind.children, motive c.node) → motive a) (a : Ast) : motive a :=
  step a fun c hc =>
    have : sizeOf c.node < sizeOf a := by
      obtain ⟨extent, kind⟩ := a
      have hchild : sizeOf c.node < sizeOf kind := Kind.sizeOf_child hc
      simp only [Ast.mk.sizeOf_spec]
      omega
    induction_children step c.node
termination_by sizeOf a

theorem Ast.nodes_eq (place : Place) (a : Ast) :
    a.nodes place = ⟨place, a⟩ :: a.kind.children.flatMap fun c => c.node.nodes c.place := by
  obtain ⟨extent, kind⟩ := a
  rw [Ast.nodes, kind.inner_eq]

theorem Below.of_mem_nodes {root a : Ast} {above : List Ast} {place : Place} {x : Placed}
    (ha : Below root above ⟨place, a⟩) (hx : x ∈ a.nodes place) : ∃ above, Below root above x := by
  induction a using Ast.induction_children generalizing above place with
  | step a ih =>
    rw [Ast.nodes_eq] at hx
    obtain rfl | hx := List.mem_cons.mp hx
    · exact ⟨above, ha⟩
    · obtain ⟨c, hc, hx⟩ := List.mem_flatMap.mp hx
      exact ih c hc (ha.child hc) hx

theorem Ast.mem_nodes_of_child {a : Ast} {place : Place} {x c : Placed} (hx : x ∈ a.nodes place)
    (hc : c ∈ x.node.kind.children) : c ∈ a.nodes place := by
  induction a using Ast.induction_children generalizing place with
  | step a ih =>
    rw [Ast.nodes_eq] at hx ⊢
    refine List.mem_cons_of_mem _ (List.mem_flatMap.mpr ?_)
    obtain rfl | hx := List.mem_cons.mp hx
    · refine ⟨c, hc, ?_⟩
      rw [Ast.nodes_eq]
      exact List.mem_cons_self
    · obtain ⟨d, hd, hx⟩ := List.mem_flatMap.mp hx
      exact ⟨d, hd, ih d hd hx⟩

theorem Ast.mem_nodes_iff {root : Ast} {x : Placed} :
    x ∈ root.nodes .statement ↔ ∃ above, Below root above x := by
  constructor
  · exact Below.of_mem_nodes .root
  · rintro ⟨above, hx⟩
    induction hx with
    | root =>
      rw [Ast.nodes_eq]
      exact List.mem_cons_self
    | child _ hc ih => exact Ast.mem_nodes_of_child ih hc

theorem Below.leaves_subset {root : Ast} {above : List Ast} {x : Placed}
    (h : Below root above x) : x.node.leaves ⊆ root.leaves := by
  induction h with
  | root => exact List.Subset.refl _
  | @child above x c _ hc ih =>
    have hx : x.node.leaves = x.node.kind.leaves := x.node.leaves_eq
    exact List.Subset.trans (Kind.leaves_of_child hc) (hx ▸ ih)

end Interlingua.Host
