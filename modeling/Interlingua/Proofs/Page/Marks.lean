import Interlingua.Proofs.Page.Composed

namespace Interlingua

def BeyondAscii (p : Char → Bool) : Prop := ∀ c : Char, c.toNat < 0x80 → p c = false

@[simp]
def Step.marks (p : Char → Bool) : Step → List Char
  | .write text => text.toList.filter p
  | _ => []

def marks (p : Char → Bool) (steps : List Step) : List Char := steps.flatMap (·.marks p)

variable {p : Char → Bool}

@[simp]
theorem marks_nil : marks p [] = [] := rfl

@[simp]
theorem marks_cons (s : Step) (steps : List Step) :
    marks p (s :: steps) = s.marks p ++ marks p steps := rfl

@[simp]
theorem marks_append (xs ys : List Step) : marks p (xs ++ ys) = marks p xs ++ marks p ys :=
  List.flatMap_append

theorem marks_flatMap {α : Type} (f : α → List Step) (as : List α) :
    marks p (as.flatMap f) = as.flatMap fun a => marks p (f a) :=
  List.flatMap_assoc

theorem Page.filter_trim (page : Page) {separator : List Char} (hs : separator.filter p = []) :
    (page.trim separator).written.filter p = page.written.filter p := by
  unfold trim
  split
  · next h =>
    obtain ⟨above, hw⟩ := List.isPrefixOf_iff_prefix.mp h
    rw [← hw, ← List.length_reverse, List.drop_left, List.filter_append, List.filter_reverse, hs,
      List.reverse_nil, List.nil_append]
  · rfl

theorem Composed.of_mem_trim {steps : List Step} (h : Composed steps) {separator : String}
    (hs : .trim separator ∈ steps) : separator = "," ∨ separator = ", " := by
  induction h with
  | nil => cases hs
  | write text => simp at hs
  | newline => simp at hs
  | append _ _ hx hy => exact (List.mem_append.mp hs).elim hx hy
  | braces _ ih => exact ih (by simpa [Step.braces] using hs)
  | @separated found items hfound _ ih =>
    cases items with
    | nil => cases hs
    | cons item items =>
      rw [Step.separated, List.mem_append, List.mem_flatMap] at hs
      obtain ⟨x, hx, hs⟩ | hs := hs
      · exact ih x hx (by simpa using hs)
      · obtain rfl : separator = found := by simpa using hs
        exact hfound

namespace BeyondAscii

variable (hp : BeyondAscii p)
include hp

theorem filter_eq_nil {cs : List Char} (h : ∀ c ∈ cs, c.toNat < 0x80) : cs.filter p = [] := by
  rw [List.filter_eq_nil_iff]
  intro c hc
  rw [hp c (h c hc)]
  exact Bool.false_ne_true

theorem filter_ascii {text : String} (h : text.toList.all (·.toNat < 0x80) = true) :
    text.toList.filter p = [] :=
  hp.filter_eq_nil fun c hc => of_decide_eq_true (List.all_eq_true.mp h c hc)

theorem marks_braces (lines : List Step) : marks p (Step.braces lines) = marks p lines := by
  have hopen : "\x7b".toList.filter p = [] := hp.filter_ascii (by decide)
  have hclose : "\x7d".toList.filter p = [] := hp.filter_ascii (by decide)
  simp only [Step.braces, marks_append, marks_cons, marks_nil, Step.marks, hopen, hclose,
    List.nil_append, List.append_nil]

theorem marks_separated {separator : String} (hs : separator = "," ∨ separator = ", ")
    (items : List (List Step)) :
    marks p (Step.separated separator items) = items.flatMap (marks p) := by
  have hsep : separator.toList.filter p = [] := by
    obtain rfl | rfl := hs <;> exact hp.filter_ascii (by decide)
  cases items with
  | nil => rfl
  | cons item items =>
    simp only [Step.separated, marks_append, marks_flatMap, marks_cons, marks_nil, Step.marks, hsep,
      List.append_nil]

theorem marks_separated_comma (items : List (List Step)) :
    marks p (Step.separated ", " items) = items.flatMap (marks p) :=
  hp.marks_separated (.inr rfl) items

theorem marks_separated_map_eq_nil {α : Type} {f : α → List Step} {as : List α}
    (h : ∀ a ∈ as, marks p (f a) = []) : marks p (Step.separated ", " (as.map f)) = [] := by
  rw [hp.marks_separated_comma, List.flatMap_map, List.flatMap_eq_nil_iff]
  exact h

theorem filter_pending (page : Page) : page.pending.filter p = [] := by
  refine hp.filter_eq_nil fun c hc => ?_
  unfold Page.pending at hc
  split at hc
  · obtain rfl := List.eq_of_mem_replicate hc
    decide
  · cases hc

theorem filter_write (page : Page) (text : List Char) :
    (page.write text).written.filter p = (text.filter p).reverse ++ page.written.filter p := by
  unfold Page.write
  split
  · next h =>
    rw [List.isEmpty_iff.mp h]
    rfl
  · rw [List.reverseAux_eq, List.filter_append, List.filter_append, List.filter_reverse,
      hp.filter_pending, List.nil_append]

theorem filter_step (page : Page) {s : Step}
    (hs : ∀ separator, s = .trim separator → separator = "," ∨ separator = ", ") :
    (page.step s).written.filter p = (s.marks p).reverse ++ page.written.filter p := by
  cases s with
  | write text => exact hp.filter_write page text.toList
  | newline =>
    change ('\n' :: page.written).filter p = page.written.filter p
    rw [List.filter_cons_of_neg]
    rw [hp '\n' (by decide)]
    exact Bool.false_ne_true
  | indent | outdent => rfl
  | trim separator =>
    refine page.filter_trim ?_
    obtain rfl | rfl := hs separator rfl <;> exact hp.filter_ascii (by decide)

theorem filter_run {steps : List Step}
    (hs : ∀ separator, .trim separator ∈ steps → separator = "," ∨ separator = ", ")
    (page : Page) :
    (page.run steps).written.filter p = (marks p steps).reverse ++ page.written.filter p := by
  induction steps generalizing page with
  | nil => rfl
  | cons s steps ih =>
    have hhead := hp.filter_step page fun separator h => hs separator (h ▸ List.mem_cons_self)
    have htail := ih (fun separator h => hs separator (List.mem_cons_of_mem s h)) (page.step s)
    change ((page.step s).run steps).written.filter p = _
    rw [htail, hhead, ← List.append_assoc, ← List.reverse_append, marks_cons]

/-- The characters of the class in a text that is laid out are those that the steps write. -/
theorem filter_layOut (layout : Layout) {steps : List Step} (h : Composed steps) :
    (layOut layout steps).toList.filter p = marks p steps := by
  have hr := hp.filter_run (fun _ hs => h.of_mem_trim hs) (Page.blank layout.indentWidth)
  have hb : (Page.blank layout.indentWidth).written.filter p = [] := rfl
  rw [layOut, Page.text, String.toList_ofList, List.filter_reverse, hr, hb, List.append_nil,
    List.reverse_reverse]

end BeyondAscii

end Interlingua
