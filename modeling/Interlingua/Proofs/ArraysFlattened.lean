import Interlingua.Proofs.Reached

namespace Interlingua.Host

open Recorded

/-- A node around a single other one that adds nothing to an array. -/
inductive Layer where
  | array (extent : Extent)
  | pipeline (extent : Extent)
  | commandExpression (extent : Extent)

namespace Ast

def inLayer : Layer → Ast → Ast
  | .array extent, a => ⟨extent, .arrayExpression [a]⟩
  | .pipeline extent, a => ⟨extent, .pipeline [a]⟩
  | .commandExpression extent, a => ⟨extent, .commandExpression a⟩

def inLayers (layers : List Layer) (a : Ast) : Ast := layers.foldr inLayer a

variable {policy : ReadPolicy}

/-- Nothing but an array can come of reading the node as a value. -/
def ReadsAsArray (policy : ReadPolicy) (a : Ast) : Prop :=
  ∃ elements : Recorded (List Expr), a.toExpr policy = (.array none ·) <$> elements

theorem readsAsArray_arrayExpression (extent : Extent) (statements : List Ast) :
    ReadsAsArray policy ⟨extent, .arrayExpression statements⟩ :=
  ⟨flatten <$> exprsOf policy statements, by simp [toExpr, Kind.toExpr]⟩

theorem toExpr_inLayer (layer : Layer) {a : Ast} (h : ReadsAsArray policy a) :
    (inLayer layer a).toExpr policy = a.toExpr policy := by
  obtain ⟨elements, ha⟩ := h
  cases layer with
  | pipeline extent | commandExpression extent => rfl
  | array extent => simp [inLayer, toExpr, Kind.toExpr, exprsOf, ha, flatten]

theorem ReadsAsArray.inLayers {a : Ast} (h : ReadsAsArray policy a) (layers : List Layer) :
    (a.inLayers layers).toExpr policy = a.toExpr policy ∧
      ReadsAsArray policy (a.inLayers layers) := by
  induction layers with
  | nil => exact ⟨rfl, h⟩
  | cons layer layers ih =>
    obtain ⟨hread, harray⟩ := ih
    have hlayer : (inLayer layer (a.inLayers layers)).toExpr policy = a.toExpr policy :=
      (toExpr_inLayer layer harray).trans hread
    refine ⟨hlayer, ?_⟩
    obtain ⟨elements, ha⟩ := h
    exact ⟨elements, hlayer.trans ha⟩

theorem toStmt_inLayers (layers : List Layer) (extent : Extent) (statements : List Ast) :
    (inLayers layers ⟨extent, .arrayExpression statements⟩).toStmt policy =
      .expr <$> (inLayers layers ⟨extent, .arrayExpression statements⟩).toExpr policy := by
  cases layers with
  | nil => simp [inLayers, toStmt, toExpr, Kind.toStmt]
  | cons layer layers =>
    cases layer <;> simp [inLayers, inLayer, toStmt, toExpr, Kind.toStmt]

end Ast

theorem flatten_eq_iff {es elements : List Expr} :
    flatten es = elements ↔
      es = [.array none elements] ∨ es = elements ∧ ∀ inner, es ≠ [.array none inner] := by
  fun_cases flatten es with
  | case1 inner => simp
  | case2 es hne =>
    have hsingle (inner : List Expr) : es ≠ [.array none inner] := fun h => hne inner h
    simp [hsingle]

/-- Array expressions around an array expression, each alone in the next or in one-element pipelines
and command expressions there, read as the innermost. That reads its statements in order, and the
results are the elements unless they are a single array without an element type, of which the
elements are taken. What ends the reading of a statement ends the whole. -/
theorem Ast.toExpr_inLayers (policy : ReadPolicy) (layers : List Layer) (extent : Extent)
    (statements : List Ast) :
    let array : Ast := ⟨extent, .arrayExpression statements⟩
    (array.inLayers layers).toExpr policy = array.toExpr policy ∧
      (array.inLayers layers).toReading policy = array.toReading policy ∧
      (∀ e ds, array.toExpr policy = .ok (e, ds) ↔
        ∃ es elements, statements.mapM (·.toExpr policy) = .ok (es, ds) ∧
          e = .array none elements ∧
          (es = [.array none elements] ∨ es = elements ∧ ∀ inner, es ≠ [.array none inner])) ∧
      ∀ u, array.toExpr policy = .error u ↔ statements.mapM (·.toExpr policy) = .error u := by
  intro array
  have harray : ReadsAsArray policy array := readsAsArray_arrayExpression extent statements
  have hread : (array.inLayers layers).toExpr policy = array.toExpr policy :=
    (harray.inLayers layers).1
  have helements : array.toExpr policy = do
      let es ← statements.mapM (·.toExpr policy)
      return .array none (flatten es) := by
    rw [← exprsOf_eq_mapM]
    rfl
  have hstmt : (array.inLayers layers).toStmt policy = array.toStmt policy := by
    rw [toStmt_inLayers, hread]
    exact (toStmt_inLayers [] extent statements).symm
  have hreading : (array.inLayers layers).toReading policy = array.toReading policy := by
    rw [toReading, toReading, hstmt]
  refine ⟨hread, hreading, fun e ds => ?_, fun u => ?_⟩
  · rw [helements, bind_pure_eq_ok_iff]
    constructor
    · rintro ⟨es, hes, rfl⟩
      exact ⟨es, flatten es, hes, rfl, flatten_eq_iff.mp rfl⟩
    · rintro ⟨es, elements, hes, rfl, hcases⟩
      exact ⟨es, hes, congrArg (Expr.array none) (flatten_eq_iff.mpr hcases)⟩
  · rw [helements, bind_pure_eq_error_iff]

/-- `@(, @(1))` is an array in an array: of one statement one array is taken apart. -/
example :
    (Ast.ofKind (.arrayExpression [.ofKind (.arrayLiteral
      [.ofKind (.arrayExpression [.ofKind (.constant "1")])])])).toExpr {} =
      .ok (.array none [.array none [.literal "1"]], []) := rfl

end Interlingua.Host
