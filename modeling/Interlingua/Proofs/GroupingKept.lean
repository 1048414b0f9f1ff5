import Mathlib.Data.List.Nodup
import Interlingua.Host.Conversion
import Interlingua.Proofs.GroupingWritten
import Interlingua.Proofs.NormalForm
import Interlingua.Proofs.Page.Inline
import Interlingua.Proofs.Page.Printers

namespace Interlingua

theorem BinaryOperator.spelling_inj {known : BinaryOperator → Prop} [DecidablePred known]
    {spelling : BinaryOperator → List Char}
    (h : ((all.filter fun op => known op).map spelling).Nodup) (op op' : BinaryOperator)
    (hop : known op) (hop' : known op') (hs : spelling op = spelling op') : op = op' := by
  have hmem {op : BinaryOperator} (hop : known op) : op ∈ all.filter fun op => known op :=
    List.mem_filter.mpr ⟨op.mem_all, decide_eq_true hop⟩
  exact List.inj_on_of_nodup_map h (hmem hop) (hmem hop') hs

theorem OperatorSyntax.similar_of_source_eq {L : OperatorSyntax} {rank : BinaryOperator → Nat}
    {a b : Expr} (ha : a.IsOperation L.known) (hb : b.IsOperation L.known)
    (hga : a.GroupedBy rank) (hgb : b.GroupedBy rank) (h : L.source a = L.source b) :
    a.similar b := by
  obtain rfl := source_inj ha hb hga hgb h
  exact (Expr.similar_iff a a).mpr rfl

theorem lineOf_binary {left right : List Step} (hl : OneLine left) (hr : OneLine right)
    (op : String) : lineOf (left ++ [.write " ", .write op, .write " "] ++ right) =
      lineOf left ++ ' ' :: op.toList ++ ' ' :: lineOf right := by
  have hspace : OneLine [.write " "] := .write _
  have hop : OneLine [.write op, .write " "] := .cons_write _ hspace
  rw [(hl.append (hop.cons_write " ")).lineOf_append hr, hl.lineOf_append (hop.cons_write " "),
    lineOf_cons_write _ hop, lineOf_cons_write _ hspace, lineOf_write]
  simp

def PowerShell.operatorSyntax : OperatorSyntax where
  source e := lineOf (PowerShell.expr e)
  sigil := ['$']
  spelling op := (PowerShell.binarySpelling op).toList
  known op := op ≠ .unknown
  source_identifier name := by
    rw [PowerShell.expr, lineOf_cons_write _ (.write name), lineOf_write]
    rfl
  source_grouped inner := lineOf_parentheses (PowerShell.oneLine_expr inner)
  source_binary left op right :=
    lineOf_binary (PowerShell.oneLine_expr left) (PowerShell.oneLine_expr right) _
  unbroken_sigil := by decide
  unbroken_spelling op hop := by
    cases op with
    | unknown => exact absurd rfl hop
    | _ => decide
  spelling_inj := BinaryOperator.spelling_inj (by decide)

def CSharp.operatorSyntax : OperatorSyntax where
  source e := lineOf (CSharp.expr e)
  sigil := []
  spelling op := (CSharp.binarySpelling op).toList
  known op := op ≠ .unknown ∧ op ≠ .bitwiseXor
  source_identifier name := lineOf_write name
  source_grouped inner := lineOf_parentheses (CSharp.oneLine_expr inner)
  source_binary left op right :=
    lineOf_binary (CSharp.oneLine_expr left) (CSharp.oneLine_expr right) _
  unbroken_sigil := by decide
  unbroken_spelling op hop := by
    cases op with
    | unknown => exact absurd rfl hop.1
    | _ => decide
  spelling_inj := BinaryOperator.spelling_inj (by decide)

theorem PowerShell.toList_render_expr (layout : Layout) (e : Expr) :
    (PowerShell.render layout (.expr e)).toList = operatorSyntax.source e :=
  (oneLine_expr e).inline.toList_layOut layout

theorem CSharp.toList_render_expr (layout : Layout) (e : Expr) :
    (CSharp.render layout (.expr e)).toList = operatorSyntax.source e :=
  (oneLine_expr e).inline.toList_layOut layout

/-- Two operations are written alike if and only if they are the same when every chain is joined
from left to right. -/
theorem PowerShell.render_eq_iff {a b : Expr} (ha : a.IsOperation (· ≠ .unknown))
    (hb : b.IsOperation (· ≠ .unknown)) (layout : Layout) :
    PowerShell.render layout (.expr a) = PowerShell.render layout (.expr b) ↔
      a.leftward = b.leftward := by
  rw [← String.toList_inj, toList_render_expr, toList_render_expr]
  exact operatorSyntax.source_eq_iff ha hb

theorem CSharp.render_eq_iff {a b : Expr}
    (ha : a.IsOperation fun op => op ≠ .unknown ∧ op ≠ .bitwiseXor)
    (hb : b.IsOperation fun op => op ≠ .unknown ∧ op ≠ .bitwiseXor) (layout : Layout) :
    CSharp.render layout (.expr a) = CSharp.render layout (.expr b) ↔
      a.leftward = b.leftward := by
  rw [← String.toList_inj, toList_render_expr, toList_render_expr]
  exact operatorSyntax.source_eq_iff ha hb

/-- Operations that are grouped by the same ranks, apart from their parentheses, are of one
structure when they are written alike. -/
theorem Expr.grouping_kept {rank : BinaryOperator → Nat} {a b : Expr} (ha : a.GroupedBy rank)
    (hb : b.GroupedBy rank) (layout : Layout) :
    (a.IsOperation (· ≠ .unknown) → b.IsOperation (· ≠ .unknown) →
      PowerShell.render layout (.expr a) = PowerShell.render layout (.expr b) → a.similar b) ∧
    (a.IsOperation (fun op => op ≠ .unknown ∧ op ≠ .bitwiseXor) →
      b.IsOperation (fun op => op ≠ .unknown ∧ op ≠ .bitwiseXor) →
      CSharp.render layout (.expr a) = CSharp.render layout (.expr b) → a.similar b) := by
  constructor
  · intro hoa hob h
    rw [← String.toList_inj, PowerShell.toList_render_expr, PowerShell.toList_render_expr] at h
    exact PowerShell.operatorSyntax.similar_of_source_eq hoa hob ha hb h
  · intro hoa hob h
    rw [← String.toList_inj, CSharp.toList_render_expr, CSharp.toList_render_expr] at h
    exact CSharp.operatorSyntax.similar_of_source_eq hoa hob ha hb h

/-- Products join before sums and differences. -/
def productsFirst : BinaryOperator → Nat
  | .multiply | .divide | .modulo => 1
  | _ => 0

def differenceOfProduct : Expr :=
  .binary (.identifier "x") .subtract (.binary (.identifier "y") .multiply
    (.grouped (.binary (.identifier "z") .subtract (.identifier "x"))))

theorem differenceOfProduct_kept :
    differenceOfProduct.GroupedBy productsFirst ∧
      (PowerShell.render {} (.expr differenceOfProduct) = "$x - $y * ($z - $x)" ∧
        differenceOfProduct.similar differenceOfProduct) ∧
      (CSharp.render {} (.expr differenceOfProduct) = "x - y * (z - x)" ∧
        differenceOfProduct.similar differenceOfProduct) := by
  have hgrouped : differenceOfProduct.GroupedBy productsFirst := by decide
  have hscript : differenceOfProduct.IsOperation (· ≠ .unknown) := by decide
  have hoperation :
      differenceOfProduct.IsOperation fun op => op ≠ .unknown ∧ op ≠ .bitwiseXor := by decide
  obtain ⟨hpowerShell, hcSharp⟩ := Expr.grouping_kept hgrouped hgrouped {}
  exact ⟨hgrouped, ⟨rfl, hpowerShell hscript hscript rfl⟩, rfl, hcSharp hoperation hoperation rfl⟩

def differenceFromLeft : Expr :=
  .binary (.binary (.identifier "x") .subtract (.identifier "y")) .subtract (.identifier "z")

def differenceFromRight : Expr :=
  .binary (.identifier "x") .subtract (.binary (.identifier "y") .subtract (.identifier "z"))

/-- No parentheses are written around the difference that is subtracted. -/
theorem differences_written_alike :
    differenceFromLeft.IsOperation (fun op => op ≠ .unknown ∧ op ≠ .bitwiseXor) ∧
      differenceFromRight.IsOperation (fun op => op ≠ .unknown ∧ op ≠ .bitwiseXor) ∧
      PowerShell.render {} (.expr differenceFromLeft) = "$x - $y - $z" ∧
      PowerShell.render {} (.expr differenceFromRight) = "$x - $y - $z" ∧
      CSharp.render {} (.expr differenceFromLeft) = "x - y - z" ∧
      CSharp.render {} (.expr differenceFromRight) = "x - y - z" ∧
      differenceFromLeft.similar differenceFromRight = false :=
  ⟨by decide, by decide, rfl, rfl, rfl, rfl, rfl⟩

example : ((Host.Ast.ofKind (.binary
      (.ofKind (.binary (.ofKind (.var "a")) "Or" (.ofKind (.var "b")))) "And"
      (.ofKind (.var "c")))).toReading {}).map (CSharp.render {} ·.node) =
    .ok "a || b && c;\n" := rfl

end Interlingua
