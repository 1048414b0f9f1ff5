import Mathlib.Data.List.Induction
import Mathlib.Data.List.Infix
import Interlingua.Proofs.Draft.Basic

namespace Interlingua

theorem mem_and_ne_of_mem_splitOn {α : Type} [BEq α] [LawfulBEq α] {x y : α} {xs row : List α}
    (hrow : row ∈ xs.splitOn x) (hy : y ∈ row) : y ∈ xs ∧ y ≠ x := by
  induction xs generalizing row with
  | nil =>
    rw [List.splitOn_nil, List.mem_singleton] at hrow
    subst hrow
    cases hy
  | cons z xs ih =>
    have hlater {row : List α} (hrow : row ∈ xs.splitOn x) (hy : y ∈ row) :
        y ∈ z :: xs ∧ y ≠ x := (ih hrow hy).imp_left (List.mem_cons_of_mem z)
    rw [List.splitOn_cons_eq_if_modifyHead] at hrow
    split at hrow
    · obtain rfl | hrow := List.mem_cons.mp hrow
      · cases hy
      · exact hlater hrow hy
    · next hz =>
      -- The first row of what follows goes on with `z` in front.
      cases hxs : xs.splitOn x with
      | nil => exact absurd hxs (List.splitOn_ne_nil x xs)
      | cons first rows =>
        rw [hxs] at hrow hlater
        obtain rfl | hrow := List.mem_cons.mp hrow
        · obtain rfl | hy := List.mem_cons.mp hy
          · exact ⟨List.mem_cons_self, by simpa using hz⟩
          · exact hlater List.mem_cons_self hy
        · exact hlater (List.mem_cons_of_mem first hrow) hy

namespace Step

/-- Whether the step neither ends a line nor takes text back. -/
def staysInLine : Step → Bool
  | newline | trim _ => false
  | _ => true

def pushed : Step → List Char
  | write text => text.toList
  | _ => []

def allPushed (steps : List Step) : List Char := steps.flatMap pushed

/-- How many levels the steps leave open. -/
def level (steps : List Step) : Nat := steps.count .indent - steps.count .outdent

/-- The line that a row of steps writes behind these steps. -/
def line (width : Nat) (before row : List Step) : List Char :=
  if allPushed row = [] then []
  else
    List.replicate (level (before ++ row.takeWhile (·.pushed.isEmpty)) * width) ' ' ++ allPushed row

/-- The lines that rows of steps write behind these steps, with a line end between the rows. -/
def lines (width : Nat) (before : List Step) : List (List Step) → List (List Char)
  | [] => []
  | row :: rows => line width before row :: lines width (before ++ row ++ [.newline]) rows

variable {width : Nat} {before row : List Step} {s : Step}

theorem staysInLine_of_mem_splitOn {steps : List Step} (h : ∀ separator, .trim separator ∉ steps)
    (hrow : row ∈ steps.splitOn .newline) : ∀ s ∈ row, s.staysInLine := by
  intro s hs
  obtain ⟨hmem, hne⟩ := mem_and_ne_of_mem_splitOn hrow hs
  cases s with
  | write text | indent | outdent => rfl
  | newline => exact absurd rfl hne
  | trim separator => exact absurd hmem (h separator)

theorem pushed_cases (h : s.staysInLine) :
    s.pushed = [] ∨ ∃ text, s = .write text ∧ text ≠ "" := by
  cases s with
  | write text =>
    by_cases htext : text = ""
    · exact .inl (by simp [pushed, htext])
    · exact .inr ⟨text, rfl, htext⟩
  | indent | outdent => exact .inl rfl
  | newline | trim separator => cases h

theorem line_of_allPushed_eq_nil (h : allPushed row = []) : line width before row = [] := if_pos h

theorem line_cons_of_pushed_eq_nil (h : s.pushed = []) :
    line width before (s :: row) = line width (before ++ [s]) row := by
  have hall : allPushed (s :: row) = allPushed row := by
    rw [allPushed, List.flatMap_cons, h, List.nil_append]
    rfl
  have hwhile : (s :: row).takeWhile (·.pushed.isEmpty) =
      s :: row.takeWhile (·.pushed.isEmpty) := by simp [h]
  rw [line, line, hall, hwhile, List.append_assoc, List.singleton_append]

theorem line_cons_write {text : String} (h : text ≠ "") :
    line width before (.write text :: row) =
      List.replicate (level before * width) ' ' ++ (text.toList ++ allPushed row) := by
  have htext : text.toList ≠ [] := by simpa using h
  have hall : allPushed (.write text :: row) = text.toList ++ allPushed row := rfl
  have hne : text.toList ++ allPushed row ≠ [] := by simp [htext]
  have hwhile : (Step.write text :: row).takeWhile (·.pushed.isEmpty) = [] := by
    simp [pushed, htext]
  rw [line, hall, if_neg hne, hwhile, List.append_nil]

/-- A line is indented as its first text is, whatever levels are opened or closed behind that. -/
theorem line_append_write {text : String} (h : text ≠ "") {start : List Step}
    (hstart : allPushed start = []) :
    line width before (start ++ .write text :: row) =
      List.replicate (level (before ++ start) * width) ' ' ++ (text.toList ++ allPushed row) := by
  induction start generalizing before with
  | nil => rw [List.nil_append, List.append_nil, line_cons_write h]
  | cons s start ih =>
    obtain ⟨hs, hrest⟩ := List.append_eq_nil_iff.mp hstart
    rw [List.cons_append, line_cons_of_pushed_eq_nil hs, ih hrest, List.append_assoc,
      List.singleton_append]

end Step

namespace Page

open Step (allPushed level line lines)

variable {width : Nat} {page : Page} {before row : List Step} {s : Step}

theorem step_write_of_ne (page : Page) {text : String} (h : text ≠ "") :
    (page.step (.write text)).text.toList = page.text.toList ++ (page.pending ++ text.toList) ∧
      (page.step (.write text)).atLineStart = false := by
  have htext : ¬ text.toList.isEmpty := by simpa using h
  simp [step, write, htext, Page.text, List.reverseAux_eq]

theorem step_of_pushed_eq_nil (page : Page) (hs : s.staysInLine) (h : s.pushed = []) :
    (page.step s).text = page.text ∧ (page.step s).atLineStart = page.atLineStart := by
  cases s with
  | write text =>
    have hwrite : page.step (.write text) = page.write [] := congrArg page.write h
    rw [hwrite]
    exact ⟨rfl, rfl⟩
  | indent | outdent => exact ⟨rfl, rfl⟩
  | newline | trim separator => cases hs

theorem step_newline (page : Page) :
    (page.step .newline).text.toList = page.text.toList ++ ['\n'] ∧
      (page.step .newline).atLineStart = true :=
  ⟨by simp [step, Page.text], rfl⟩

theorem toList_text_run_begun (hrow : ∀ s ∈ row, s.staysInLine)
    (hbegun : page.atLineStart = false) :
    (page.run row).text.toList = page.text.toList ++ allPushed row := by
  induction row generalizing page with
  | nil => simp [run, allPushed]
  | cons s row ih =>
    obtain ⟨hs, hrest⟩ := List.forall_mem_cons.mp hrow
    have hall : allPushed (s :: row) = s.pushed ++ allPushed row := rfl
    rw [run_cons, hall]
    obtain hpushed | ⟨text, rfl, htext⟩ := Step.pushed_cases hs
    · obtain ⟨hsame, hline⟩ := page.step_of_pushed_eq_nil hs hpushed
      rw [ih hrest (hline.trans hbegun), hsame, hpushed, List.nil_append]
    · obtain ⟨hadded, hline⟩ := page.step_write_of_ne htext
      have hpending : page.pending = [] := by simp [pending, hbegun]
      rw [ih hrest hline, hadded, hpending, List.nil_append, List.append_assoc]
      rfl

theorem step_depth (page : Page) (hi : s ≠ .indent) (ho : s ≠ .outdent) :
    (page.step s).depth = page.depth := by
  cases s with
  | write text =>
    rw [step, write]
    split <;> rfl
  | trim separator =>
    rw [step, trim]
    split <;> rfl
  | newline => rfl
  | indent => exact absurd rfl hi
  | outdent => exact absurd rfl ho

/-- The depth counts the levels that are open, as long as none is closed that is not open. -/
theorem depth_run_blank {steps : List Step}
    (h : ∀ before, before ++ [.outdent] <+: steps → 0 < ((blank width).run before).depth) :
    steps.count .outdent ≤ steps.count .indent ∧ ((blank width).run steps).depth = level steps := by
  induction steps using List.reverseRecOn with
  | nil => exact ⟨Nat.le_refl _, rfl⟩
  | append_singleton steps s ih =>
    obtain ⟨hle, hdepth⟩ := ih fun before hb => h before (hb.trans (List.prefix_append _ _))
    rw [run_append, run_singleton]
    by_cases hi : s = .indent
    · subst hi
      have hstep : (((blank width).run steps).step .indent).depth = level steps + 1 :=
        congrArg (· + 1) hdepth
      rw [hstep]
      simp [level]
      omega
    by_cases ho : s = .outdent
    · subst ho
      have hopen := h steps (List.prefix_refl _)
      have hstep : (((blank width).run steps).step .outdent).depth = level steps - 1 :=
        congrArg (· - 1) hdepth
      rw [hstep]
      rw [hdepth] at hopen
      simp [level] at hopen ⊢
      omega
    · rw [step_depth _ hi ho, hdepth]
      simp [level, hi, ho, hle]

/-- On a blank page the depth is, everywhere in the steps, the number of open levels. -/
def DepthIsLevel (width : Nat) (steps : List Step) : Prop :=
  ∀ before, before <+: steps → ((blank width).run before).depth = level before

theorem DepthIsLevel.front {start steps : List Step} (h : DepthIsLevel width steps)
    (hfront : start <+: steps) : DepthIsLevel width start :=
  fun before hbefore => h before (hbefore.trans hfront)

theorem toList_text_run_row (hrow : ∀ s ∈ row, s.staysInLine)
    (hlevel : DepthIsLevel width (before ++ row))
    (hstart : ((blank width).run before).atLineStart = true) :
    ((blank width).run (before ++ row)).text.toList =
      ((blank width).run before).text.toList ++ line width before row := by
  induction row generalizing before with
  | nil => simp [Step.line_of_allPushed_eq_nil, allPushed]
  | cons s row ih =>
    obtain ⟨hs, hrest⟩ := List.forall_mem_cons.mp hrow
    have hstep : (blank width).run (before ++ [s]) = ((blank width).run before).step s :=
      run_append _ before [s]
    have hcons : before ++ s :: row = before ++ [s] ++ row := by simp
    obtain hpushed | ⟨text, rfl, htext⟩ := Step.pushed_cases hs
    · obtain ⟨hsame, hline⟩ := ((blank width).run before).step_of_pushed_eq_nil hs hpushed
      rw [← hstep] at hsame hline
      rw [hcons] at hlevel ⊢
      rw [ih hrest hlevel (hline.trans hstart), hsame, Step.line_cons_of_pushed_eq_nil hpushed]
    · obtain ⟨hadded, hline⟩ := ((blank width).run before).step_write_of_ne htext
      rw [← hstep] at hadded hline
      have hdepth : ((blank width).run before).depth = level before :=
        hlevel before (List.prefix_append _ _)
      have hpending : ((blank width).run before).pending =
          List.replicate (level before * width) ' ' := by
        rw [pending, if_pos hstart, hdepth, run_width]
        rfl
      rw [hcons, run_append, toList_text_run_begun hrest hline, hadded, hpending,
        Step.line_cons_write htext]
      simp only [List.append_assoc]

theorem toList_text_run_rows {rows : List (List Step)}
    (hrows : ∀ row ∈ rows, ∀ s ∈ row, s.staysInLine)
    (hlevel : DepthIsLevel width (before ++ [.newline].intercalate rows))
    (hstart : ((blank width).run before).atLineStart = true) :
    ((blank width).run (before ++ [.newline].intercalate rows)).text.toList =
      ((blank width).run before).text.toList ++ ['\n'].intercalate (lines width before rows) := by
  induction rows generalizing before with
  | nil => simp [lines]
  | cons row rows ih =>
    obtain ⟨hrow, hrest⟩ := List.forall_mem_cons.mp hrows
    cases rows with
    | nil =>
      rw [List.intercalate_singleton] at hlevel ⊢
      rw [toList_text_run_row hrow hlevel hstart, lines, lines, List.intercalate_singleton]
    | cons next rows =>
      have hsplit : before ++ [Step.newline].intercalate (row :: next :: rows) =
          before ++ row ++ [.newline] ++ [Step.newline].intercalate (next :: rows) := by
        rw [List.intercalate_cons_cons]
        simp only [List.append_assoc]
      have hlines : ['\n'].intercalate (lines width before (row :: next :: rows)) =
          line width before row ++ ['\n'] ++
            ['\n'].intercalate (lines width (before ++ row ++ [.newline]) (next :: rows)) := by
        rw [lines, lines, List.intercalate_cons_cons]
      have hended : (blank width).run (before ++ row ++ [.newline]) =
          ((blank width).run (before ++ row)).step .newline := run_append _ (before ++ row) [_]
      obtain ⟨hnewline, hagain⟩ := ((blank width).run (before ++ row)).step_newline
      rw [← hended] at hnewline hagain
      rw [hsplit] at hlevel ⊢
      have hlevelRow : DepthIsLevel width (before ++ row) :=
        (hlevel.front (List.prefix_append _ _)).front (List.prefix_append _ _)
      rw [ih hrest hlevel hagain, hnewline, toList_text_run_row hrow hlevelRow hstart, hlines]
      simp only [List.append_assoc]

/-- What steps write on a blank page, if they take no text back and close no level that is not
open: the line of each row of steps between two line ends, with line ends between the lines. A line
is empty where its row has no text, and else it is indented as its first text is, by the depth that
the page has there. -/
theorem lines_indented (width : Nat) (steps : List Step)
    (htrim : ∀ separator, .trim separator ∉ steps)
    (hclosed : ∀ before, before ++ [.outdent] <+: steps → 0 < ((blank width).run before).depth) :
    ((blank width).run steps).text.toList =
        ['\n'].intercalate (lines width [] (steps.splitOn .newline)) ∧
      (∀ before, before <+: steps → ((blank width).run before).depth = level before) ∧
      (∀ before row, allPushed row = [] → line width before row = []) ∧
      ∀ before start text row, allPushed start = [] → text ≠ "" →
        line width before (start ++ .write text :: row) =
          List.replicate (level (before ++ start) * width) ' ' ++
            (text.toList ++ allPushed row) := by
  have hdepth : DepthIsLevel width steps := fun before hfront =>
    (depth_run_blank fun start hstart => hclosed start (hstart.trans hfront)).2
  refine ⟨?_, hdepth, fun _ _ h => Step.line_of_allPushed_eq_nil h, fun _ _ _ _ hstart htext =>
    Step.line_append_write htext hstart⟩
  have hrows : ∀ row ∈ steps.splitOn .newline, ∀ s ∈ row, s.staysInLine :=
    fun row hrow => Step.staysInLine_of_mem_splitOn htrim hrow
  have hlevel : DepthIsLevel width ([] ++ [.newline].intercalate (steps.splitOn .newline)) := by
    rw [List.intercalate_splitOn, List.nil_append]
    exact hdepth
  have hlines := toList_text_run_rows hrows hlevel rfl
  rw [List.intercalate_splitOn] at hlines
  exact hlines

/-- The third line is indented by the two levels that are open at its first text, though an empty
text comes before the second of them and one is closed within the line. -/
theorem lines_indented_levels :
    let steps := [Step.write "a", .indent, .newline, .newline, .write "", .indent, .write "b",
      .outdent, .write "c", .newline, .outdent, .write "d"]
    (∀ separator, .trim separator ∉ steps) ∧
      (∀ before, before ++ [.outdent] <+: steps → 0 < ((blank 2).run before).depth) ∧
      ((blank 2).run steps).text.toList = "a\n\n    bc\nd".toList := by
  intro steps
  have htrim : ∀ separator, Step.trim separator ∉ steps := by simp [steps]
  have hfronts : ∀ before ∈ steps.inits, before ++ [.outdent] <+: steps →
      0 < ((blank 2).run before).depth := by decide
  have hclosed : ∀ before, before ++ [.outdent] <+: steps → 0 < ((blank 2).run before).depth :=
    fun before h => hfronts before
      ((List.mem_inits before steps).mpr ((List.prefix_append before _).trans h)) h
  refine ⟨htrim, hclosed, ?_⟩
  rw [(lines_indented 2 steps htrim hclosed).1]
  decide

end Page

end Interlingua
