import Interlingua.Proofs.Reached
import Interlingua.Proofs.StandIn

namespace Interlingua.Host

theorem ReadsTo.literal_mem {policy : ReadPolicy} {place : Place} {extent : Extent}
    {value : String} {ms : List Mention} {ds : List Diagnostic}
    (h : ReadsTo policy ⟨place, ⟨extent, .constant value⟩⟩ ms ds) : .literal value ∈ ms := by
  cases h <;> next h => cases h; exact List.mem_singleton_self _

theorem Ast.constant_kept {policy : ReadPolicy} {root : Ast} {r : Reading} {above : List Ast}
    {place : Place} {extent : Extent} {value : String} (names : NamesNoObject root.leaves)
    (h : root.toReading policy = .ok r)
    (hx : Below root above ⟨place, ⟨extent, .constant value⟩⟩) :
    .literal value ∈ r.node.mentions ∨ ∃ a ∈ above, a.LeftOut r.diagnostics := by
  obtain hout | ⟨found, recorded, hread, -, hlast⟩ := hx.found_of_toReading h
  · exact .inr hout
  · exact .inl (hlast _ hread.literal_mem names)

/-- Where no leaf names the command that creates an object, reading with literals in the place of
constructs succeeds, and each constant is kept unless a node above it is left out. -/
theorem Ast.constants_kept (dup : OnDuplicate) {root : Ast}
    (names : ∀ t ∈ root.leaves, ¬ Text.sameName "New-Object" t) :
    ∃ r, root.toReading ⟨.standIn, dup⟩ = .ok r ∧ ∀ above place extent value,
      Below root above ⟨place, ⟨extent, .constant value⟩⟩ →
        .literal value ∈ r.node.mentions ∨
          ∃ a ∈ above, a.Reported r.diagnostics ∨ a.MissesItem r.diagnostics := by
  obtain ⟨s, ds, hs, -⟩ := root.toStmt_cutShort dup
  have h : root.toReading ⟨.standIn, dup⟩ = .ok ⟨.stmt s, ds⟩ := by simp only [toReading, hs]
  exact ⟨_, h, fun _ _ _ _ hx => constant_kept names h hx⟩

def tableAndConstant : Ast := .script [.ofKind .hashtable, .ofKind (.constant "1")]

theorem tableAndConstant_kept :
    (∀ t ∈ tableAndConstant.leaves, ¬ Text.sameName "New-Object" t) ∧
      Below tableAndConstant [tableAndConstant] ⟨.statement, .ofKind (.constant "1")⟩ ∧
      ∃ r, tableAndConstant.toReading ⟨.standIn, .keepLast⟩ = .ok r ∧
        (.literal "1" ∈ r.node.mentions ∨
          ∃ a ∈ [tableAndConstant], a.Reported r.diagnostics ∨ a.MissesItem r.diagnostics) := by
  have names : ∀ t ∈ tableAndConstant.leaves, ¬ Text.sameName "New-Object" t := by decide
  have below : Below tableAndConstant [tableAndConstant]
      ⟨.statement, .ofKind (.constant "1")⟩ := .child .root (.tail _ (.head _))
  obtain ⟨r, h, hkept⟩ := Ast.constants_kept .keepLast names
  exact ⟨names, below, r, h, hkept _ _ _ _ below⟩

/-- `foreach ([int]$i in 1) { }` -/
def loopOverConversion : Ast :=
  ⟨⟨1, 1, 1, 27, "foreach ([int]$i in 1) \x7b \x7d"⟩, .forEachStatement
    ⟨⟨1, 10, 1, 17, "[int]$i"⟩, .convert "int" ⟨⟨1, 15, 1, 17, "$i"⟩, .var "i"⟩⟩
    ⟨⟨1, 21, 1, 22, "1"⟩, .constant "1"⟩
    ⟨⟨1, 24, 1, 27, "\x7b \x7d"⟩, .statementBlock []⟩⟩

theorem loopOverConversion_loses_constant :
    ((loopOverConversion.nodes .statement).map (·.node.extent)).Nodup ∧
      (∀ t ∈ loopOverConversion.leaves, ¬ Text.sameName "New-Object" t) ∧
      Below loopOverConversion [loopOverConversion]
        ⟨.value, ⟨⟨1, 21, 1, 22, "1"⟩, .constant "1"⟩⟩ ∧
      ∃ r, loopOverConversion.toReading ⟨.standIn, .keepLast⟩ = .ok r ∧
        .literal "1" ∉ r.node.mentions ∧
        ∀ a ∈ [⟨⟨1, 21, 1, 22, "1"⟩, .constant "1"⟩, loopOverConversion],
          ¬ a.Reported r.diagnostics := by
  refine ⟨by decide, by decide, .child .root (.tail _ (.head _)), _, rfl, by decide, ?_⟩
  simp only [Ast.Reported]
  decide

end Interlingua.Host
