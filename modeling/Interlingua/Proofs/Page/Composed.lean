import Interlingua.Render.Page

namespace Interlingua

namespace Page

theorem run_append (page : Page) (xs ys : List Step) :
    page.run (xs ++ ys) = (page.run xs).run ys :=
  List.foldl_append

theorem run_singleton (page : Page) (s : Step) : page.run [s] = page.step s := rfl

theorem run_cons (page : Page) (s : Step) (steps : List Step) :
    page.run (s :: steps) = (page.step s).run steps := rfl

@[simp]
theorem reverse_pending (page : Page) : page.pending.reverse = page.pending := by
  unfold pending
  split <;> simp

theorem step_width (page : Page) (s : Step) : (page.step s).width = page.width := by
  cases s with
  | write text =>
    rw [step, write]
    split <;> rfl
  | trim separator =>
    rw [step, trim]
    split <;> rfl
  | newline | indent | outdent => rfl

theorem run_width (page : Page) (steps : List Step) : (page.run steps).width = page.width := by
  induction steps generalizing page with
  | nil => rfl
  | cons s steps ih => exact (ih (page.step s)).trans (page.step_width s)

def below (page : Page) (above : List Char) : Page :=
  { page with written := page.written ++ above }

theorem below_write (page : Page) (above text : List Char) :
    (page.below above).write text = (page.write text).below above := by
  unfold write
  split
  · rfl
  · simp [below, pending, List.reverseAux_eq]
    rfl

theorem run_separated (page : Page) (separator : String) {items : List (List Step)}
    (h : items ≠ []) : ∃ above,
      (page.run (items.flatMap (· ++ [.write separator]))).written =
        separator.toList.reverse ++ above ∧
      page.run (Step.separated separator items) =
        { page.run (items.flatMap (· ++ [.write separator])) with written := above } := by
  have hlast : ∃ above, (page.run (items.flatMap (· ++ [.write separator]))).written =
      separator.toList.reverse ++ above := by
    obtain ⟨init, item, rfl⟩ := items.eq_nil_or_concat.resolve_left h
    rw [List.concat_eq_append, List.flatMap_append, run_append, List.flatMap_singleton, run_append,
      run_singleton]
    generalize (page.run (init.flatMap _)).run item = last
    by_cases hs : separator.toList = []
    · exact ⟨last.written, by simp [step, write, hs]⟩
    · exact ⟨last.pending ++ last.written, by simp [step, write, hs, List.reverseAux_eq]⟩
  obtain ⟨above, hw⟩ := hlast
  have hprefix : separator.toList.reverse.isPrefixOf
      (page.run (items.flatMap (· ++ [.write separator]))).written := by
    rw [hw, List.isPrefixOf_iff_prefix]
    exact List.prefix_append _ _
  refine ⟨above, hw, ?_⟩
  cases items with
  | nil => exact absurd rfl h
  | cons item items =>
    rw [Step.separated, run_append, run_singleton, step, trim, if_pos hprefix, hw,
      ← List.length_reverse, List.drop_left]

end Page

/-- Steps that keep to themselves: they return to the depth at which they begin, and write the same
below any text. -/
structure Confined (steps : List Step) : Prop where
  depth_run : ∀ page : Page, (page.run steps).depth = page.depth
  run_below : ∀ (page : Page) (above : List Char),
    (page.below above).run steps = (page.run steps).below above

namespace Confined

open Page

variable {xs ys : List Step}

theorem nil : Confined [] := ⟨fun _ => rfl, fun _ _ => rfl⟩

theorem write (text : String) : Confined [.write text] := by
  refine ⟨fun page => ?_, fun page above => page.below_write above text.toList⟩
  rw [run_singleton, step, Page.write]
  split <;> rfl

theorem newline : Confined [.newline] := ⟨fun _ => rfl, fun _ _ => rfl⟩

theorem append (hx : Confined xs) (hy : Confined ys) : Confined (xs ++ ys) := by
  constructor
  · intro page
    rw [run_append, hy.depth_run, hx.depth_run]
  · intro page above
    rw [run_append, hx.run_below, hy.run_below, run_append]

theorem flatMap {α : Type} {f : α → List Step} {as : List α} (h : ∀ a ∈ as, Confined (f a)) :
    Confined (as.flatMap f) := by
  induction as with
  | nil => exact nil
  | cons a as ih =>
    obtain ⟨ha, has⟩ := List.forall_mem_cons.mp h
    exact ha.append (ih has)

theorem run_braces (page : Page) (xs : List Step) :
    page.run (Step.braces xs) =
      ((((page.run [.write "\x7b"]).step .indent).run xs).step .outdent).run
        [.newline, .write "\x7d"] := by
  rw [Step.braces, run_append, run_append]
  rfl

theorem braces (h : Confined xs) : Confined (Step.braces xs) := by
  have hopen : Confined [.write "\x7b"] := write _
  have hclose : Confined [.newline, .write "\x7d"] := newline.append (write _)
  constructor
  · intro page
    rw [run_braces, hclose.depth_run]
    change (((page.run [.write "\x7b"]).step .indent).run xs).depth - 1 = page.depth
    rw [h.depth_run]
    change (page.run [.write "\x7b"]).depth + 1 - 1 = page.depth
    rw [hopen.depth_run, Nat.add_sub_cancel]
  · intro page above
    have hindent (page : Page) :
        (page.below above).step .indent = (page.step .indent).below above := rfl
    have houtdent (page : Page) :
        (page.below above).step .outdent = (page.step .outdent).below above := rfl
    rw [run_braces, run_braces, hopen.run_below, hindent, h.run_below, houtdent, hclose.run_below]

theorem separated {separator : String} {items : List (List Step)}
    (h : ∀ item ∈ items, Confined item) : Confined (Step.separated separator items) := by
  by_cases hi : items = []
  · subst hi
    exact nil
  · have hitems : Confined (items.flatMap (· ++ [.write separator])) :=
      flatMap fun item hm => (h item hm).append (write separator)
    constructor
    · intro page
      obtain ⟨above, -, hr⟩ := page.run_separated separator hi
      rw [hr]
      exact hitems.depth_run page
    · intro page text
      obtain ⟨above, hw, hr⟩ := page.run_separated separator hi
      obtain ⟨above', hw', hr'⟩ := (page.below text).run_separated separator hi
      rw [hitems.run_below] at hw' hr'
      have habove : above' = above ++ text := by
        change (page.run _).written ++ text = _ at hw'
        rw [hw, List.append_assoc] at hw'
        exact (List.append_cancel_left hw').symm
      rw [hr, hr', habove]
      rfl

end Confined

/-- Steps that are put together of whole constructs. -/
inductive Composed : List Step → Prop
  | nil : Composed []
  | write (text : String) : Composed [.write text]
  | newline : Composed [.newline]
  | append {xs ys : List Step} : Composed xs → Composed ys → Composed (xs ++ ys)
  | braces {lines : List Step} : Composed lines → Composed (Step.braces lines)
  | separated {separator : String} {items : List (List Step)} :
      separator = "," ∨ separator = ", " → (∀ item ∈ items, Composed item) →
        Composed (Step.separated separator items)

namespace Composed

variable {steps : List Step}

theorem confined (h : Composed steps) : Confined steps := by
  induction h with
  | nil => exact .nil
  | write text => exact .write text
  | newline => exact .newline
  | append _ _ hx hy => exact hx.append hy
  | braces _ h => exact h.braces
  | separated _ _ h => exact .separated h

theorem flatMap {α : Type} {f : α → List Step} {as : List α} (h : ∀ a ∈ as, Composed (f a)) :
    Composed (as.flatMap f) := by
  induction as with
  | nil => exact .nil
  | cons a as ih =>
    obtain ⟨ha, has⟩ := List.forall_mem_cons.mp h
    exact .append ha (ih has)

end Composed

/-- Steps that are put together of texts alone, one behind the other or with separators between. -/
inductive OneLine : List Step → Prop
  | nil : OneLine []
  | write (text : String) : OneLine [.write text]
  | append {xs ys : List Step} : OneLine xs → OneLine ys → OneLine (xs ++ ys)
  | separated {separator : String} {items : List (List Step)} :
      separator = "," ∨ separator = ", " → (∀ item ∈ items, OneLine item) →
        OneLine (Step.separated separator items)

namespace OneLine

variable {steps : List Step}

theorem cons_write (text : String) (h : OneLine steps) : OneLine (.write text :: steps) :=
  .append (.write text) h

theorem composed (h : OneLine steps) : Composed steps := by
  induction h with
  | nil => exact .nil
  | write text => exact .write text
  | append _ _ hx hy => exact .append hx hy
  | separated hs _ h => exact .separated hs h

end OneLine

theorem Page.eq_below_of_atLineStart {page : Page} (hd : page.depth = 0)
    (hl : page.atLineStart = true) : page = (Page.blank page.width).below page.written := by
  obtain ⟨written, depth, width, atLineStart⟩ := page
  obtain rfl : depth = 0 := hd
  obtain rfl : atLineStart = true := hl
  rfl

theorem Page.text_below (page : Page) (above : List Char) :
    (page.below above).text = String.ofList above.reverse ++ page.text := by
  simp [below, text, String.ofList_append]

theorem layOut_append (layout : Layout) {xs ys : List Step} (hx : Composed xs) (hy : Composed ys)
    (hline : ((Page.blank layout.indentWidth).run xs).atLineStart = true) :
    layOut layout (xs ++ ys) = layOut layout xs ++ layOut layout ys := by
  have hdepth := hx.confined.depth_run (Page.blank layout.indentWidth)
  have hwidth := (Page.blank layout.indentWidth).run_width xs
  unfold layOut
  rw [Page.run_append]
  generalize (Page.blank layout.indentWidth).run xs = page at hline hdepth hwidth
  have hpage : page = (Page.blank layout.indentWidth).below page.written :=
    (Page.eq_below_of_atLineStart hdepth hline).trans (by rw [hwidth]; rfl)
  calc (page.run ys).text
      = (((Page.blank layout.indentWidth).below page.written).run ys).text := by rw [← hpage]
    _ = (((Page.blank layout.indentWidth).run ys).below page.written).text := by
        rw [hy.confined.run_below]
    _ = page.text ++ ((Page.blank layout.indentWidth).run ys).text := Page.text_below _ _

end Interlingua
