import Interlingua.Proofs.Page.Inline
import Interlingua.Proofs.Page.Printers
import Interlingua.Proofs.Recording

namespace Interlingua

def IsGap (text : List Char) : Prop := ∀ c ∈ text, c ∈ [' ', '(', ')', ',']

instance (text : List Char) : Decidable (IsGap text) := List.decidableBAll _ text

/-- The text holds the words in their order, with gaps between and around them. -/
inductive Spells : List Char → List (List Char) → Prop
  | nil {gap : List Char} : IsGap gap → Spells gap []
  | cons {gap word rest : List Char} {words : List (List Char)} :
      IsGap gap → Spells rest words → Spells (gap ++ word ++ rest) (word :: words)

theorem IsGap.append {s t : List Char} (hs : IsGap s) (ht : IsGap t) : IsGap (s ++ t) :=
  List.forall_mem_append.mpr ⟨hs, ht⟩

namespace Spells

variable {s t gap : List Char} {words words' : List (List Char)}

theorem word (text : List Char) : Spells text [text] := by
  have hgap : IsGap [] := nofun
  have h : Spells ([] ++ text ++ []) [text] := .cons hgap (.nil hgap)
  rwa [List.nil_append, List.append_nil] at h

theorem gap_append (hg : IsGap gap) (h : Spells t words) : Spells (gap ++ t) words := by
  cases h with
  | nil ht => exact .nil (hg.append ht)
  | cons hgap hrest =>
    rw [List.append_assoc, ← List.append_assoc, ← List.append_assoc]
    exact .cons (hg.append hgap) hrest

theorem append (hs : Spells s words) (ht : Spells t words') :
    Spells (s ++ t) (words ++ words') := by
  induction hs with
  | nil hg => exact ht.gap_append hg
  | cons hg _ ih =>
    rw [List.append_assoc]
    exact .cons hg ih

theorem close (h : Spells t words) : Spells (t ++ [')']) words := by
  have hclose : Spells [')'] [] := .nil (by decide)
  have h := h.append hclose
  rwa [List.append_nil] at h

theorem intercalate (hg : IsGap gap) (words : List (List Char)) :
    Spells (gap.intercalate words) words := by
  induction words with
  | nil => exact .nil nofun
  | cons w words ih =>
    cases words with
    | nil =>
      rw [List.intercalate_singleton]
      exact word w
    | cons w' words =>
      rw [List.intercalate_cons_cons, List.append_assoc]
      exact (word w).append (ih.gap_append hg)

end Spells

namespace PowerShell

def nameWords (name : Option String) : List (List Char) :=
  name.toList.map fun name => ' ' :: '-' :: name.toList

def valueWords (value : Option Expr) : List (List Char) :=
  value.toList.map fun value => lineOf (expr value)

def words (a : Argument) : List (List Char) := nameWords a.name ++ valueWords a.value

theorem spells_commandValue (v : Option Expr) :
    Spells (lineOf (commandValue v)) (valueWords v) := by
  cases v with
  | none => exact .nil (by decide)
  | some e =>
    have he := oneLine_expr e
    have hword := Spells.word (lineOf (expr e))
    rw [commandValue]
    split
    · rw [lineOf_cons_write _ he]
      exact hword.gap_append (by decide)
    · have hgroup : OneLine ([.write "("] ++ expr e ++ [.write ")"]) :=
        .append (.append (.write _) he) (.write _)
      rw [lineOf_cons_write _ hgroup, lineOf_parentheses he]
      have hopen : IsGap [' ', '('] := by decide
      have hspelled := hword.close.gap_append hopen
      exact hspelled

theorem spells_commandArgument (a : Argument) : Spells (lineOf (commandArgument a)) (words a) := by
  obtain ⟨name, value⟩ := a
  have hv := spells_commandValue value
  cases name with
  | none => exact hv
  | some name =>
    have hname : lineOf (commandArgument ⟨some name, value⟩) =
        (' ' :: '-' :: name.toList) ++ lineOf (commandValue value) := by
      have h := oneLine_commandValue value
      rw [commandArgument]
      exact (lineOf_cons_write _ (.cons_write _ h)).trans (congrArg _ (lineOf_cons_write _ h))
    rw [hname]
    exact (Spells.word _).append hv

theorem spells_commandArguments (as : List Argument) :
    Spells (lineOf (commandArguments as)) (as.flatMap words) := by
  induction as with
  | nil => exact .nil nofun
  | cons a as ih =>
    rw [commandArguments, (oneLine_commandArgument a).lineOf_append (oneLine_commandArguments as)]
    exact (spells_commandArgument a).append ih

theorem map_values (as : List Argument) :
    (values as).map lineOf = as.flatMap fun a => valueWords a.value := by
  induction as with
  | nil => rfl
  | cons a as ih =>
    obtain ⟨name, value⟩ := a
    cases value with
    | none => exact ih
    | some e => exact congrArg _ ih

theorem flatMap_words {as : List Argument} (h : ∀ a ∈ as, a.name = none) :
    as.flatMap words = as.flatMap fun a => valueWords a.value := by
  refine List.flatMap_congr fun a ha => ?_
  rw [words, h a ha]
  rfl

/-- What is written in front of the arguments. -/
def calleeText : Expr → List Char
  | .identifier command => command.toList
  | .member target name isStatic => lineOf (expr (.member target name isStatic))
  | callee => '&' :: ' ' :: lineOf (expr callee)

theorem spells_call {callee : Expr} {passed : List Argument}
    (h : (∀ target name isStatic, callee ≠ .member target name isStatic) ∨
      ∀ a ∈ passed, a.name = none) :
    ∃ behind, lineOf (expr (.call callee passed)) = calleeText callee ++ behind ∧
      Spells behind (passed.flatMap words) := by
  have harguments := oneLine_commandArguments passed
  have hspelled := spells_commandArguments passed
  have hcallee := oneLine_expr callee
  have hcomputed : lineOf ([.write "& "] ++ expr callee ++ commandArguments passed) =
      ('&' :: ' ' :: lineOf (expr callee)) ++ lineOf (commandArguments passed) := by
    have hamp : OneLine ([.write "& "] ++ expr callee) := .append (.write _) hcallee
    rw [hamp.lineOf_append harguments, OneLine.lineOf_append (.write _) hcallee, lineOf_write]
    rfl
  -- What is called decides the syntax in which the arguments are written.
  cases callee with
  | identifier command => exact ⟨_, lineOf_cons_write command harguments, hspelled⟩
  | member target name isStatic =>
    have hunnamed := h.resolve_left fun hc => hc target name isStatic rfl
    have hvalues : OneLine (Step.separated ", " (values passed)) :=
      .separated (.inr rfl) (oneLine_values passed)
    have hcall : expr (.call (.member target name isStatic) passed) =
        expr (.member target name isStatic) ++
          ([.write "("] ++ Step.separated ", " (values passed) ++ [.write ")"]) := by
      rw [expr, List.append_assoc, List.append_assoc, List.append_assoc]
    refine ⟨'(' :: ", ".toList.intercalate (passed.flatMap words) ++ [')'], ?_, ?_⟩
    · rw [hcall, hcallee.lineOf_append (.append (.append (.write _) hvalues) (.write _)),
        lineOf_parentheses hvalues, OneLine.lineOf_separated (oneLine_values passed),
        map_values, ← flatMap_words hunnamed, calleeText]
    · have hcomma : IsGap ", ".toList := by decide
      have hopen : IsGap ['('] := by decide
      have hspelled := (Spells.intercalate hcomma (passed.flatMap words)).close.gap_append hopen
      exact hspelled
  | _ => exact ⟨lineOf (commandArguments passed), hcomputed, hspelled⟩

end PowerShell

namespace Host

open Recorded (bind_eq_ok)

theorem forall₂_of_argumentsOf {policy : ReadPolicy} {as : List Ast} {xs : List Argument}
    {ds : List Diagnostic} (h : argumentsOf policy as = .ok (xs, ds)) :
    List.Forall₂ (fun a x => ∃ ds, a.toArgument policy = .ok (x, ds)) as xs := by
  induction as generalizing xs ds with
  | nil =>
    cases h
    exact .nil
  | cons a as ih =>
    rw [argumentsOf] at h
    obtain ⟨x, first, _, hx, hrest, rfl⟩ := bind_eq_ok h
    obtain ⟨xs', second, _, hxs, hlast, rfl⟩ := bind_eq_ok hrest
    cases hlast
    exact .cons ⟨first, hx⟩ (ih hxs)

theorem passed_of_command {policy : ReadPolicy} {place : Extent} {elements : List Ast}
    {callee : Expr} {passed : List Argument} {ds : List Diagnostic}
    (h : (⟨place, .command elements⟩ : Ast).toExpr policy = .ok (.call callee passed, ds)) :
    ∃ arguments, passed = attachValues arguments ∧
      List.Forall₂ (fun a x => ∃ ds, a.toArgument policy = .ok (x, ds)) elements.tail
        arguments := by
  cases elements with
  | nil =>
    change Recorded.unsupported policy "Command" place = _ at h
    unfold Recorded.unsupported at h
    split at h <;> cases h
  | cons head rest =>
    rw [Ast.toExpr, Kind.toExpr] at h
    obtain ⟨read, first, _, -, hrest, -⟩ := bind_eq_ok h
    obtain ⟨arguments, second, _, harguments, hlast, -⟩ := bind_eq_ok hrest
    obtain ⟨hcall, -⟩ := Prod.mk.inj (Except.ok.inj hlast)
    cases eq_of_commandExpr hcall
    exact ⟨arguments, rfl, forall₂_of_argumentsOf harguments⟩

/-- The arguments of a command that stays a call are spelled in its text, in the order in which they
stand behind its head, when none has a name or what is called is no member. -/
theorem Ast.arguments_spelled {policy : ReadPolicy} {place : Extent} {elements : List Ast}
    {callee : Expr} {passed : List Argument} {ds : List Diagnostic}
    (h : (⟨place, .command elements⟩ : Ast).toExpr policy = .ok (.call callee passed, ds))
    (hcallee : (∀ target name isStatic, callee ≠ .member target name isStatic) ∨
      ∀ a ∈ passed, a.name = none) (layout : Layout) :
    ∃ arguments behind,
      List.Forall₂ (fun a x => ∃ ds, a.toArgument policy = .ok (x, ds)) elements.tail arguments ∧
      passed.flatMap PowerShell.words = arguments.flatMap PowerShell.words ∧
      (PowerShell.render layout (.expr (.call callee passed))).toList =
        PowerShell.calleeText callee ++ behind ∧
      Spells behind (arguments.flatMap PowerShell.words) := by
  obtain ⟨arguments, hpassed, hread⟩ := passed_of_command h
  have hwords : passed.flatMap PowerShell.words = arguments.flatMap PowerShell.words := by
    rw [hpassed]
    exact flatMap_attachValues PowerShell.nameWords (fun _ => rfl) rfl rfl arguments
  obtain ⟨behind, htext, hspells⟩ := PowerShell.spells_call hcallee
  have hrender := (PowerShell.oneLine_expr (.call callee passed)).inline.toList_layOut layout
  exact ⟨arguments, behind, hread, hwords, hrender.trans htext, hwords ▸ hspells⟩

/-- The elements of the command `Copy-Item $b.Size() -Depth 2 -Force`. -/
def copyElements : List Ast :=
  [.ofKind (.stringConstant "Copy-Item"),
    .ofKind (.invokeMember (.ofKind (.var "b")) "Size" [] false),
    .ofKind (.commandParameter "Depth" none), .ofKind (.constant "2"),
    .ofKind (.commandParameter "Force" none)]

def copyArguments : List Argument :=
  [.positional (.call (.member (.identifier "b") "Size" false) []), .named "Depth" (.literal "2"),
    .flag "Force"]

theorem copy_spelled : ∃ arguments behind,
    List.Forall₂ (fun a x => ∃ ds, a.toArgument {} = .ok (x, ds)) copyElements.tail arguments ∧
      copyArguments.flatMap PowerShell.words = arguments.flatMap PowerShell.words ∧
      (PowerShell.render {} (.expr (.call (.identifier "Copy-Item") copyArguments))).toList =
        "Copy-Item".toList ++ behind ∧
      Spells behind (arguments.flatMap PowerShell.words) := by
  have hread : (Ast.ofKind (.command copyElements)).toExpr {} =
      .ok (.call (.identifier "Copy-Item") copyArguments, []) := rfl
  exact Ast.arguments_spelled hread (.inl nofun) {}

example : PowerShell.render {} (.expr (.call (.identifier "Copy-Item") copyArguments)) =
    "Copy-Item ($b.Size()) -Depth 2 -Force" := rfl

/-- The command `& $o.Run -Force -Depth 2`. -/
def runByCommand : Ast :=
  .ofKind (.command [.ofKind (.member (.ofKind (.var "o")) "Run" false),
    .ofKind (.commandParameter "Force" none), .ofKind (.commandParameter "Depth" none),
    .ofKind (.constant "2")])

def runArguments : List Argument := [.flag "Force", .named "Depth" (.literal "2")]

/-- Where a command runs a member, the names of its arguments are not written. -/
theorem runByCommand_drops_names :
    runByCommand.toExpr {} =
        .ok (.call (.member (.identifier "o") "Run" false) runArguments, []) ∧
      PowerShell.render {} (.expr (.call (.member (.identifier "o") "Run" false) runArguments)) =
        "$o.Run(2)" ∧
      runArguments.flatMap PowerShell.words = [" -Force".toList, " -Depth".toList, "2".toList] ∧
      ¬ " -Force".toList <:+: "$o.Run(2)".toList := by
  refine ⟨rfl, rfl, rfl, fun h => ?_⟩
  have hmem : '-' ∈ "$o.Run(2)".toList := h.subset (by decide)
  exact absurd hmem (by decide)

end Host

end Interlingua
