import Interlingua.Host.Conversion
import Interlingua.Proofs.Template.Interpolated
import Interlingua.Proofs.Template.References

namespace Interlingua

open Template (fullName IsName IsPlain)

namespace Template

theorem IsName.colon_notMem {name : String} (h : IsName name) : ':' ∉ name.toList := by
  intro hmem
  exact absurd (h.2 ':' hmem) (by decide)

theorem parts_of_isPlain {scope : Option String} {name : String} (h : IsPlain scope name []) :
    parts (String.ofList ('$' :: fullName scope name)) = [.ref scope name false] := by
  have href : (Part.ref scope name false).IsReference [] := h
  have hscan : scan [] ('$' :: fullName scope name ++ []) = [.ref scope name false] := by
    refine (scan_spelling href).trans ?_
    rw [scan]
    rfl
  rw [parts, String.toList_ofList, ← hscan, List.append_nil]

theorem isPlain_of_isName {scope : Option String} {name : String} (hscope : ∀ s ∈ scope, IsName s)
    (hname : IsName name) : IsPlain scope name [] :=
  ⟨hscope, hname, nofun, nofun⟩

end Template

namespace CSharp

/-- The scopes of which a variable has a value in C#, in any case. -/
def IsTranslated (scope : String) : Prop :=
  plainScopes.any (Text.sameName · scope) ∨ Text.sameName "env" scope

instance (scope : String) : Decidable (IsTranslated scope) :=
  inferInstanceAs (Decidable (_ ∨ _))

/-- What stands for the variable in the hole of a string. -/
def holeSource : Option String → String → List Char
  | none, name => name.toList
  | some scope, name => if Text.sameName "env" scope then writtenCall name else name.toList

theorem variableHole_eq_hole {scope : Option String} (h : ∀ s ∈ scope, IsTranslated s)
    (name : String) : variableHole scope name = hole (holeSource scope name) := by
  cases scope with
  | none => rfl
  | some s =>
    by_cases hplain : plainScopes.any (Text.sameName · s)
    · rw [variableHole, if_pos hplain, holeSource, if_neg (not_env_of_plain hplain)]
    · have henv : Text.sameName "env" s := (h s rfl).resolve_left hplain
      rw [variableHole, if_neg hplain, if_pos henv, holeSource, if_pos henv]
      rfl

theorem colon_notMem_writtenCall {name : String} (h : IsName name) : ':' ∉ writtenCall name := by
  have hopen : ':' ∉ "Environment.GetEnvironmentVariable(\"".toList := by decide
  have hclose : ':' ∉ "\")".toList := by decide
  unfold writtenCall
  intro hmem
  obtain hmem | hmem := List.mem_append.mp hmem
  · obtain hmem | hmem := List.mem_append.mp hmem
    · exact hopen hmem
    · exact h.colon_notMem hmem
  · exact hclose hmem

theorem colon_notMem_holeSource (scope : Option String) {name : String} (h : IsName name) :
    ':' ∉ holeSource scope name := by
  cases scope with
  | none => exact h.colon_notMem
  | some s =>
    by_cases henv : Text.sameName "env" s
    · rw [holeSource, if_pos henv]
      exact colon_notMem_writtenCall h
    · rw [holeSource, if_neg henv]
      exact h.colon_notMem

theorem render_variable (layout : Layout) {scope : Option String} {name : String}
    (hscope : ∀ s ∈ scope, IsName s ∧ IsTranslated s) (hname : IsName name) :
    (render layout
        (.expr (.template (String.ofList ('$' :: fullName scope name))))).toList =
      "$\"".toList ++ hole (holeSource scope name) ++ ['\"'] := by
  have hplain : IsPlain scope name [] :=
    Template.isPlain_of_isName (fun s hs => (hscope s hs).1) hname
  rw [render_template, interpolated, Template.parts_of_isPlain hplain, List.flatMap_singleton, part,
    variableHole_eq_hole (fun s hs => (hscope s hs).2)]
  rfl

theorem holeSource_eq_fullName_iff (scope : Option String) {name : String} (h : IsName name) :
    holeSource scope name = fullName scope name ↔ scope = none := by
  cases scope with
  | none => exact iff_of_true rfl rfl
  | some s =>
    refine iff_of_false ?_ nofun
    intro heq
    apply colon_notMem_holeSource (some s) h
    rw [heq]
    exact List.mem_append_right _ List.mem_cons_self

end CSharp

open CSharp (IsTranslated hole holeSource)

/-- A variable is read as an expression that is written as its path. In a string of its own it is
written as a hole. What stands in the hole is what is written for the expression if and only if the
variable has no scope. -/
theorem Host.Ast.variable_written_alike_iff (policy : ReadPolicy) (layout : Layout)
    (extent : Extent) (scope : Option String) (name : String)
    (hscope : ∀ s ∈ scope, IsName s ∧ IsTranslated s) (hname : IsName name) :
    ∃ e, (⟨extent, .var (String.ofList (fullName scope name))⟩ : Host.Ast).toReading policy =
        .ok ⟨.stmt (.expr e), []⟩ ∧
      (CSharp.render layout (.expr e)).toList = fullName scope name ∧
      (CSharp.render layout
          (.expr (.template (String.ofList ('$' :: fullName scope name))))).toList =
        "$\"".toList ++ hole (holeSource scope name) ++ ['\"'] ∧
      (holeSource scope name = (CSharp.render layout (.expr e)).toList ↔ scope = none) := by
  have hoverall : (CSharp.render layout
      (.expr (.identifier (String.ofList (fullName scope name))))).toList = fullName scope name :=
    toList_layOut_write layout _
  refine ⟨.identifier (String.ofList (fullName scope name)), rfl, hoverall,
    CSharp.render_variable layout hscope hname, ?_⟩
  rw [hoverall]
  exact CSharp.holeSource_eq_fullName_iff scope hname

theorem Host.twoVariables_written :
    (IsName "größe" ∧ holeSource none "größe" = "größe".toList ∧
        ∃ e, (Ast.ofKind (.var (String.ofList (fullName none "größe")))).toReading {} =
            .ok ⟨.stmt (.expr e), []⟩ ∧
          holeSource none "größe" = (CSharp.render {} (.expr e)).toList) ∧
      IsName "Env" ∧ IsTranslated "Env" ∧ IsName "PATH" ∧
        ∃ e, (Ast.ofKind (.var (String.ofList (fullName (some "Env") "PATH")))).toReading {} =
            .ok ⟨.stmt (.expr e), []⟩ ∧
          holeSource (some "Env") "PATH" ≠ (CSharp.render {} (.expr e)).toList := by
  have hname : IsName "größe" := by decide
  have henv : IsName "Env" ∧ IsTranslated "Env" := by decide
  have hpath : IsName "PATH" := by decide
  have hscope : ∀ s ∈ some "Env", IsName s ∧ IsTranslated s := by
    rintro _ ⟨⟩
    exact henv
  obtain ⟨e, he, -, -, halike⟩ :=
    Host.Ast.variable_written_alike_iff {} {} {} none "größe" nofun hname
  obtain ⟨f, hf, -, -, hdiffer⟩ :=
    Host.Ast.variable_written_alike_iff {} {} {} (some "Env") "PATH" hscope hpath
  refine ⟨⟨hname, rfl, e, he, halike.mpr rfl⟩, henv.1, henv.2, hpath, f, hf, fun h => ?_⟩
  cases hdiffer.mp h

/-- `$env:PATH` is a call in a string and a path elsewhere. -/
theorem Host.environmentVariable_differs :
    IsName "env" ∧ IsTranslated "env" ∧ IsName "PATH" ∧
      ∃ e, (Ast.ofKind (.var "env:PATH")).toReading {} = .ok ⟨.stmt (.expr e), []⟩ ∧
        CSharp.render {} (.expr e) = "env:PATH" ∧
        (CSharp.render {} (.expr (.template "$env:PATH"))).toList =
          "$\"".toList ++
            hole "Environment.GetEnvironmentVariable(\"PATH\")".toList ++ ['\"'] ∧
        (CSharp.render {} (.expr (.template "$env:PATH"))).toList ≠
          "$\"".toList ++ hole (CSharp.render {} (.expr e)).toList ++ ['\"'] := by
  have hnames : IsName "env" ∧ IsTranslated "env" ∧ IsName "PATH" := by decide
  have hscope : ∀ s ∈ some "env", IsName s ∧ IsTranslated s := by
    rintro _ ⟨⟩
    exact ⟨hnames.1, hnames.2.1⟩
  have htemplate : String.ofList ('$' :: fullName (some "env") "PATH") = "$env:PATH" := by decide
  have hsource : holeSource (some "env") "PATH" =
      "Environment.GetEnvironmentVariable(\"PATH\")".toList := by decide
  have hwritten := CSharp.render_variable {} hscope hnames.2.2
  rw [htemplate, hsource] at hwritten
  have hpath : CSharp.render {} (.expr (.identifier "env:PATH")) = "env:PATH" := rfl
  refine ⟨hnames.1, hnames.2.1, hnames.2.2, .identifier "env:PATH", rfl, hpath, hwritten, ?_⟩
  rw [hwritten, hpath]
  decide

end Interlingua
