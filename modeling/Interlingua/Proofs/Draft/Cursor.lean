import Interlingua.Proofs.Draft.CSharp
import Interlingua.Proofs.Draft.PowerShell

namespace Interlingua

namespace Page

/-- Whether what the step takes for granted holds of the page. -/
def allows (page : Page) : Step → Bool
  | .outdent => 0 < page.depth
  | .trim separator => separator.toList.reverse.isPrefixOf page.written
  | _ => true

def attempt (page : Page) (s : Step) : Option Page :=
  if page.allows s then some (page.step s) else none

def attemptAll (page : Page) (steps : List Step) : Option Page := steps.foldlM attempt page

theorem attemptAll_append (page : Page) (xs ys : List Step) :
    page.attemptAll (xs ++ ys) = (page.attemptAll xs).bind (·.attemptAll ys) :=
  List.foldlM_append

theorem attemptAll_singleton {page : Page} {s : Step} (h : page.allows s = true) :
    page.attemptAll [s] = some (page.run [s]) := by
  simp [attemptAll, attempt, h, run]

theorem attemptAll_close {xs : List Step} (h : Confined xs) (page : Page) :
    ((page.run [.write "\x7b", .indent]).run xs).attemptAll [.outdent, .newline, .write "\x7d"] =
      some (((page.run [.write "\x7b", .indent]).run xs).run
        [.outdent, .newline, .write "\x7d"]) := by
  have hdepth : 0 < ((page.run [.write "\x7b", .indent]).run xs).depth := by
    rw [h.depth_run]
    exact Nat.succ_pos _
  generalize (page.run [.write "\x7b", .indent]).run xs = inside at hdepth
  simp [attemptAll, attempt, allows, hdepth, run]

end Page

/-- Every page allows the steps, one after the other. -/
def Allowed (steps : List Step) : Prop :=
  ∀ page : Page, page.attemptAll steps = some (page.run steps)

namespace Allowed

open Page

variable {xs ys : List Step}

theorem nil : Allowed [] := fun _ => rfl

theorem write (text : String) : Allowed [.write text] := fun _ => attemptAll_singleton rfl

theorem newline : Allowed [.newline] := fun _ => attemptAll_singleton rfl

theorem opening : Allowed [.write "\x7b", .indent] := fun _ => rfl

theorem append (hx : Allowed xs) (hy : Allowed ys) : Allowed (xs ++ ys) := by
  intro page
  rw [attemptAll_append, hx, Option.bind_some, hy, run_append]

theorem flatMap {α : Type} {f : α → List Step} {as : List α} (h : ∀ a ∈ as, Allowed (f a)) :
    Allowed (as.flatMap f) := by
  induction as with
  | nil => exact nil
  | cons a as ih =>
    obtain ⟨ha, has⟩ := List.forall_mem_cons.mp h
    exact ha.append (ih has)

theorem braces (h : Allowed xs) (hx : Confined xs) : Allowed (Step.braces xs) := by
  intro page
  rw [Step.braces, attemptAll_append, attemptAll_append, opening, Option.bind_some, h,
    Option.bind_some, attemptAll_close hx, run_append, run_append]

theorem separated {separator : String} {items : List (List Step)}
    (h : ∀ item ∈ items, Allowed item) : Allowed (Step.separated separator items) := by
  cases items with
  | nil => exact nil
  | cons item items =>
    intro page
    have hitems : Allowed ((item :: items).flatMap (· ++ [.write separator])) :=
      flatMap fun i hi => (h i hi).append (write separator)
    obtain ⟨above, hw, -⟩ := page.run_separated separator (List.cons_ne_nil item items)
    have hend : (page.run ((item :: items).flatMap (· ++ [.write separator]))).allows
        (.trim separator) = true := by
      rw [allows, hw, List.isPrefixOf_iff_prefix]
      exact List.prefix_append _ _
    rw [Step.separated, attemptAll_append, hitems, Option.bind_some, attemptAll_singleton hend,
      run_append]

end Allowed

/-- Whole constructs take nothing for granted that does not hold. -/
theorem Composed.allowed {steps : List Step} (h : Composed steps) : Allowed steps := by
  induction h with
  | nil => exact .nil
  | write text => exact .write text
  | newline => exact .newline
  | append _ _ hx hy => exact hx.append hy
  | braces h ih => exact ih.braces h.confined
  | separated _ _ ih => exact .separated ih

theorem Confined.prefix_run {steps : List Step} (h : Confined steps) (page : Page) :
    page.text.toList <+: (page.run steps).text.toList := by
  have hpage : page = ({ page with written := [] } : Page).below page.written := rfl
  rw [hpage, h.run_below, Page.text_below, Page.text_below]
  simp [Page.text]

/-- A page to write on, and whether statements are terminated at the moment. -/
structure Cursor where
  page : Page
  ended : Bool

def Cursor.attempt (c : Cursor) (steps : List Step) : Option Cursor :=
  (c.page.attemptAll steps).map fun page => { c with page }

theorem Allowed.attempt_eq {steps : List Step} (h : Allowed steps) (c : Cursor) :
    c.attempt steps = some ⟨c.page.run steps, c.ended⟩ :=
  congrArg (Option.map _) (h c.page)

namespace Draft

/-- Writes the draft at the cursor. Where statements are not to be terminated, the cursor is told so
and has its setting back behind. -/
def write : Draft → Cursor → Option Cursor
  | empty, c => some c
  | line l, c => c.attempt l.trimmed
  | lineEnd, c => c.attempt [.newline]
  | append first second, c => (first.write c).bind second.write
  | block lines, c => do
    let inside ← c.attempt [.write "\x7b", .indent]
    let behind ← lines.write inside
    behind.attempt [.outdent, .newline, .write "\x7d"]
  | terminator, c => if c.ended then c.attempt [.write ";"] else some c
  | unterminated part, c => do
    let written ← part.write { c with ended := false }
    return { written with ended := c.ended }

/-- Writing a draft does not fail. It runs the steps and leaves the terminators as they were. -/
theorem write_eq (d : Draft) (c : Cursor) :
    d.write c = some ⟨c.page.run (d.trimmed c.ended), c.ended⟩ := by
  induction d generalizing c with
  | empty => rfl
  | line l => exact l.oneLine_trimmed.composed.allowed.attempt_eq c
  | lineEnd => exact Allowed.newline.attempt_eq c
  | append first second ihf ihs =>
    have hrun := c.page.run_append (first.trimmed c.ended) (second.trimmed c.ended)
    rw [write, ihf, Option.bind_some, ihs]
    exact congrArg (fun page => some (Cursor.mk page c.ended)) hrun.symm
  | block lines ih =>
    have hclose := Page.attemptAll_close (lines.composed c.ended).confined c.page
    have hrun : c.page.run ((block lines).trimmed c.ended) =
        ((c.page.run [.write "\x7b", .indent]).run (lines.trimmed c.ended)).run
          [.outdent, .newline, .write "\x7d"] := by
      rw [trimmed, steps, Step.braces, Page.run_append, Page.run_append]
    rw [hrun, write, Allowed.opening.attempt_eq]
    simp only [Option.bind_eq_bind, Option.bind_some, ih]
    exact congrArg (Option.map _) hclose
  | terminator =>
    obtain ⟨page, ended⟩ := c
    cases ended with
    | false => rfl
    | true => exact (Allowed.write ";").attempt_eq ⟨page, true⟩
  | unterminated part ih =>
    rw [write, ih]
    rfl

/-- The steps, which the draft is written in, keep the cursor: from any page on, with the
terminators on or off. -/
structure KeepsCursor (d : Draft) (steps : Bool → List Step) : Prop where
  /-- Nothing is taken for granted that does not hold. -/
  attemptAll_eq : ∀ c : Cursor,
    c.page.attemptAll (steps c.ended) = some (c.page.run (steps c.ended))
  /-- The terminators are as they were. -/
  write_eq : ∀ c : Cursor, d.write c = some ⟨c.page.run (steps c.ended), c.ended⟩
  depth_eq : ∀ c : Cursor, (c.page.run (steps c.ended)).depth = c.page.depth
  text_prefix : ∀ c : Cursor, c.page.text.toList <+: (c.page.run (steps c.ended)).text.toList

theorem keepsCursor {d : Draft} {steps : Bool → List Step}
    (h : ∀ ended, d.trimmed ended = steps ended) : d.KeepsCursor steps := by
  obtain rfl : (fun ended => d.trimmed ended) = steps := funext h
  have hcomposed (c : Cursor) : Composed (d.trimmed c.ended) := d.composed c.ended
  constructor
  · exact fun c => (hcomposed c).allowed c.page
  · exact d.write_eq
  · exact fun c => (hcomposed c).confined.depth_run c.page
  · exact fun c => (hcomposed c).confined.prefix_run c.page

theorem write_blank {d : Draft} {steps : List Step} {ended : Bool} (h : d.trimmed ended = steps)
    (layout : Layout) :
    ∃ page, (Page.blank layout.indentWidth).attemptAll steps = some page ∧
      d.write ⟨.blank layout.indentWidth, ended⟩ = some ⟨page, ended⟩ ∧ page.depth = 0 ∧
      page.text = layOut layout steps := by
  subst h
  have hcomposed := d.composed ended
  exact ⟨_, hcomposed.allowed _, d.write_eq _, hcomposed.confined.depth_run _, rfl⟩

end Draft

/-- Both printers keep the cursor: a statement or an expression that is written from any page on,
with the terminators on or off, takes nothing for granted that does not hold, leaves the depth and
the terminators as they were and only adds text. A whole tree ends at the depth zero, with the text
that is laid out. -/
theorem Node.cursor_kept :
    ((∀ s, (CSharp.stmtDraft s).KeepsCursor fun ended => CSharp.stmt ended s) ∧
      ∀ e, (Draft.line (CSharp.exprLine e)).KeepsCursor fun _ => CSharp.expr e) ∧
    ((∀ s, (PowerShell.stmtDraft s).KeepsCursor fun ended => PowerShell.stmt ended s) ∧
      ∀ e, (Draft.line (PowerShell.exprLine e)).KeepsCursor fun _ => PowerShell.expr e) ∧
    ∀ (layout : Layout) (n : Node),
      (∃ page, let ended := layout.terminate.getD true
        (Page.blank layout.indentWidth).attemptAll (CSharp.node ended n) = some page ∧
          (CSharp.nodeDraft n).write ⟨.blank layout.indentWidth, ended⟩ = some ⟨page, ended⟩ ∧
          page.depth = 0 ∧ page.text = CSharp.render layout n) ∧
      ∃ page, let ended := layout.terminate.getD false
        (Page.blank layout.indentWidth).attemptAll (PowerShell.node ended n) = some page ∧
          (PowerShell.nodeDraft n).write ⟨.blank layout.indentWidth, ended⟩ = some ⟨page, ended⟩ ∧
          page.depth = 0 ∧ page.text = PowerShell.render layout n := by
  refine ⟨⟨fun s => ?_, fun e => ?_⟩, ⟨fun s => ?_, fun e => ?_⟩, fun layout n => ⟨?_, ?_⟩⟩
  · exact Draft.keepsCursor fun ended => CSharp.trimmed_stmtDraft ended s
  · exact Draft.keepsCursor fun _ => CSharp.trimmed_exprLine e
  · exact Draft.keepsCursor fun ended => PowerShell.trimmed_stmtDraft ended s
  · exact Draft.keepsCursor fun _ => PowerShell.trimmed_exprLine e
  · exact Draft.write_blank (CSharp.trimmed_nodeDraft _ n) layout
  · exact Draft.write_blank (PowerShell.trimmed_nodeDraft _ n) layout

end Interlingua
