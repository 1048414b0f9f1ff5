import Interlingua.Proofs.ReadAlike

namespace Interlingua

theorem Diagnostic.moved_id (d : Diagnostic) : d.moved id = d := by
  cases d <;> rfl

theorem Recorded.Alike.eq {α γ : Type} {view : α → γ} (hview : ∀ a b, view a = view b → a = b)
    {x y : Recorded α} (h : Alike id view x y) : x = y := by
  cases h with
  | @ok a b ds hab =>
    rw [funext Diagnostic.moved_id, List.map_id', hview a b hab]
  | error u => rfl

namespace Host

namespace Token

variable {β : Type} [DecidableEq β] {table : List (String × β)}

/-- The first token of the table with the value of this one. A token that the table does not list
represents itself. -/
def representative (table : List (String × β)) (token : String) : String :=
  match table.lookup token with
  | none => token
  | some value => ((table.find? (·.2 = value)).map (·.1)).getD token

theorem representative_of_lookup_eq_none {token : String} (h : table.lookup token = none) :
    representative table token = token := by
  rw [representative, h]

theorem find?_of_lookup {token : String} {value : β} (h : table.lookup token = some value) :
    table.find? (·.2 = value) = some (representative table token, value) := by
  have hmem : (token, value) ∈ table := by
    obtain ⟨before, after, rfl, -⟩ := List.lookup_eq_some_iff.mp h
    exact List.mem_append_right before List.mem_cons_self
  cases hfind : table.find? (·.2 = value) with
  | none =>
    have hne := List.find?_eq_none.mp hfind _ hmem
    exact absurd (decide_eq_true rfl) hne
  | some entry =>
    obtain ⟨first, found⟩ := entry
    obtain rfl : found = value := by simpa using List.find?_some hfind
    simp only [representative, h, hfind, Option.map_some, Option.getD_some]

theorem lookup_representative (hkeys : ∀ entry ∈ table, table.lookup entry.1 = some entry.2)
    (token : String) : table.lookup (representative table token) = table.lookup token := by
  cases h : table.lookup token with
  | none => rw [representative_of_lookup_eq_none h, h]
  | some value => exact hkeys _ (List.mem_of_find?_eq_some (find?_of_lookup h))

/-- Where no token is listed twice, tokens have one representative if and only if they are the
same or both are listed, with the same value. -/
theorem representative_eq_iff (hkeys : ∀ entry ∈ table, table.lookup entry.1 = some entry.2)
    (s t : String) :
    representative table s = representative table t ↔
      s = t ∨ ∃ value, table.lookup s = some value ∧ table.lookup t = some value := by
  constructor
  · intro h
    have hlookup : table.lookup s = table.lookup t := by
      rw [← lookup_representative hkeys s, h, lookup_representative hkeys t]
    cases ht : table.lookup t with
    | some value => exact .inr ⟨value, hlookup.trans ht, rfl⟩
    | none =>
      left
      rwa [representative_of_lookup_eq_none (hlookup.trans ht),
        representative_of_lookup_eq_none ht] at h
  · rintro (rfl | ⟨value, hs, ht⟩)
    · rfl
    · have hst := (find?_of_lookup hs).symm.trans (find?_of_lookup ht)
      exact congrArg Prod.fst (Option.some.inj hst)

theorem lookup_eq_none_of_getD {p : β → Prop} {default : β}
    (hvalues : ∀ entry ∈ table, ¬ p entry.2) {token : String}
    (h : p ((table.lookup token).getD default)) : table.lookup token = none := by
  cases hl : table.lookup token with
  | none => rfl
  | some value =>
    rw [hl] at h
    exact absurd h (hvalues _ (List.mem_of_find?_eq_some (find?_of_lookup hl)))

theorem lookup_of_mem_binaryTable :
    ∀ entry ∈ binaryTable, binaryTable.lookup entry.1 = some entry.2 := by decide

theorem lookup_of_mem_unaryTable :
    ∀ entry ∈ unaryTable, unaryTable.lookup entry.1 = some entry.2 := by decide

end Token

/-- Replaces each token of an operator between two operands or with a single one by the first
token of its table that stands for the same operator, on the same side. -/
def Relabeling.representing : Relabeling where
  binary := Token.representative Token.binaryTable
  unary := Token.representative Token.unaryTable

/-- The trees are the same up to tokens that stand for the same operator in their positions. -/
def Ast.Interchangeable (a b : Ast) : Prop :=
  a.relabel .representing = b.relabel .representing

theorem Relabeling.representing_unseen (policy : ReadPolicy) :
    representing.Unseen policy id id where
  node _ _ := rfl
  binary token := by
    rw [representing, Token.binary, Token.lookup_representative Token.lookup_of_mem_binaryTable,
      Token.binary]
  binary_unknown token h := by
    have hnone : Token.binaryTable.lookup token = none :=
      Token.lookup_eq_none_of_getD (p := (· = BinaryOperator.unknown)) (by decide) h
    exact Token.representative_of_lookup_eq_none hnone
  unary token := by
    rw [representing, Token.unary, Token.lookup_representative Token.lookup_of_mem_unaryTable,
      Token.unary]
  unary_unknown token h := by
    have hnone : Token.unaryTable.lookup token = none :=
      Token.lookup_eq_none_of_getD (p := (·.1 = .unknown)) (by decide) h
    exact Token.representative_of_lookup_eq_none hnone
  standIn _ _ _ := rfl

theorem Ast.toStmt_representing (policy : ReadPolicy) (a : Ast) :
    (a.relabel .representing).toStmt policy = a.toStmt policy := by
  have hview (s t : Stmt) (h : s.mapLiterals id = t.mapLiterals id) : s = t := by
    rwa [Stmt.mapLiterals_id, Stmt.mapLiterals_id] at h
  exact ((a.toStmt_alike (Relabeling.representing_unseen policy)).eq hview).symm

/-- Trees that are the same up to interchangeable tokens are read alike under every policy. -/
theorem Ast.toReading_of_interchangeable (policy : ReadPolicy) {a b : Ast}
    (h : a.Interchangeable b) : a.toReading policy = b.toReading policy := by
  have hstmt : a.toStmt policy = b.toStmt policy := by
    rw [← a.toStmt_representing, h, b.toStmt_representing]
  simp only [toReading, hstmt]

def negatedComparison (negation comparison : String) : Ast :=
  .script [.ofKind (.whileStatement
    (.ofKind (.unary negation (.ofKind (.binary (.ofKind (.var "a")) comparison
      (.ofKind (.binary (.ofKind (.var "b")) "Ilike" (.ofKind (.stringConstant "Ieq"))))))))
    (.ofKind .breakStatement))]

theorem negatedComparison_interchangeable :
    negatedComparison "Not" "Ieq" ≠ negatedComparison "Exclaim" "Ceq" ∧
      (negatedComparison "Not" "Ieq").Interchangeable (negatedComparison "Exclaim" "Ceq") ∧
      (negatedComparison "Not" "Ieq").toReading ⟨.stop, .keepLast⟩ =
        (negatedComparison "Exclaim" "Ceq").toReading ⟨.stop, .keepLast⟩ := by
  have hnegation : Token.representative Token.unaryTable "Not" =
      Token.representative Token.unaryTable "Exclaim" :=
    (Token.representative_eq_iff Token.lookup_of_mem_unaryTable _ _).mpr
      (.inr ⟨(.not, .before), rfl, rfl⟩)
  have hcomparison : Token.representative Token.binaryTable "Ieq" =
      Token.representative Token.binaryTable "Ceq" :=
    (Token.representative_eq_iff Token.lookup_of_mem_binaryTable _ _).mpr
      (.inr ⟨.equal, rfl, rfl⟩)
  have h : (negatedComparison "Not" "Ieq").Interchangeable
      (negatedComparison "Exclaim" "Ceq") := by
    simp only [Ast.Interchangeable, negatedComparison, Ast.script, Ast.ofKind, Ast.relabel,
      Kind.relabel, Ast.allRelabel, Relabeling.representing, hnegation, hcomparison]
  refine ⟨?_, h, Ast.toReading_of_interchangeable ⟨.stop, .keepLast⟩ h⟩
  simp [negatedComparison, Ast.script, Ast.ofKind]

end Host

end Interlingua
