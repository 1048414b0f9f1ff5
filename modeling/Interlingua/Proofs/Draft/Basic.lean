import Interlingua.Proofs.Page.Inline

namespace Interlingua

/-- What opens a list, which is not empty. -/
structure Opening where
  text : String
  ne_empty : text ≠ "" := by decide

namespace Opening

def round : Opening := { text := "(" }

def square : Opening := { text := "[" }

@[simp]
theorem text_round : round.text = "(" := rfl

@[simp]
theorem text_square : square.text = "[" := rfl

end Opening

/-- Text that ends no line. -/
inductive Line where
  | empty
  | text (text : String)
  | append (first second : Line)
  /-- Items behind what opens the list, with a comma and a space between. -/
  | listed (opening : Opening) (items : List Line)
  | spaced (opening : Opening) (items : List Line)

/-- What is written for a tree, put together of lines, line ends, blocks and the terminators of
statements. -/
inductive Draft where
  | empty
  | line (line : Line)
  | lineEnd
  | append (first second : Draft)
  /-- A block: what it holds stands in braces, indented by one level more. -/
  | block (lines : Draft)
  | terminator
  /-- A part in which no statement is terminated. -/
  | unterminated (part : Draft)

instance : Append Line := ⟨.append⟩

instance : Append Draft := ⟨.append⟩

def Line.row (lines : List Line) : Line := lines.foldr .append .empty

def Draft.row (drafts : List Draft) : Draft := drafts.foldr .append .empty

def Step.between (separator : String) (items : List (List Step)) : List Step :=
  List.intercalate [.write separator] items

namespace Line

open Step (separated between)

mutual

/-- The steps that write the line and put a separator behind each item of a list, the last of which
is taken back. In a spaced list each item is behind a space. -/
def trimmed : Line → List Step
  | empty => []
  | text t => [.write t]
  | append first second => first.trimmed ++ second.trimmed
  | listed opening items => .write opening.text :: separated ", " (allTrimmed items)
  | spaced opening items =>
    .write opening.text :: separated "," ((allTrimmed items).map (.write " " :: ·))
termination_by structural l => l

def allTrimmed : List Line → List (List Step)
  | [] => []
  | l :: ls => l.trimmed :: allTrimmed ls
termination_by structural ls => ls

end

mutual

/-- The steps that write the line and put separators between the items of a list. -/
def joined : Line → List Step
  | empty => []
  | text t => [.write t]
  | append first second => first.joined ++ second.joined
  | listed opening items => .write opening.text :: between ", " (allJoined items)
  | spaced opening items =>
    .write opening.text ::
      (if items.isEmpty then [] else .write " " :: between ", " (allJoined items))
termination_by structural l => l

def allJoined : List Line → List (List Step)
  | [] => []
  | l :: ls => l.joined :: allJoined ls
termination_by structural ls => ls

end

mutual

def content : Line → List Char
  | empty => []
  | text t => t.toList
  | append first second => first.content ++ second.content
  | listed opening items => opening.text.toList ++ ", ".toList.intercalate (allContent items)
  | spaced opening items =>
    opening.text.toList ++
      (if items.isEmpty then [] else ' ' :: ", ".toList.intercalate (allContent items))
termination_by structural l => l

def allContent : List Line → List (List Char)
  | [] => []
  | l :: ls => l.content :: allContent ls
termination_by structural ls => ls

end

@[simp]
theorem trimmed_append (a b : Line) : (a ++ b).trimmed = a.trimmed ++ b.trimmed := rfl

theorem trimmed_row (ls : List Line) : (row ls).trimmed = ls.flatMap trimmed := by
  induction ls with
  | nil => rfl
  | cons l ls ih => exact congrArg (l.trimmed ++ ·) ih

theorem allTrimmed_eq (ls : List Line) : allTrimmed ls = ls.map trimmed := by
  induction ls with
  | nil => rfl
  | cons l ls ih => rw [allTrimmed, ih, List.map_cons]

end Line

namespace Page

theorem write_nil (page : Page) : page.write [] = page := rfl

theorem atLineStart_write {page : Page} (h : page.atLineStart = false) (text : List Char) :
    (page.write text).atLineStart = false := by
  unfold write
  split
  · exact h
  · rfl

theorem atLineStart_write_of_ne_nil (page : Page) {text : List Char} (h : text ≠ []) :
    (page.write text).atLineStart = false := by
  rw [write, if_neg (by simpa using h)]

/-- Indentation is due once, in front of the first text that is not empty. -/
theorem write_append (page : Page) (t u : List Char) :
    page.write (t ++ u) = (page.write t).write u := by
  by_cases ht : t = []
  · subst ht
    rfl
  by_cases hu : u = []
  · subst hu
    rw [List.append_nil, write_nil]
  · simp [write, pending, ht, hu, List.reverseAux_eq]

theorem trim_write {page : Page} (h : page.atLineStart = false) (separator : List Char) :
    (page.write separator).trim separator = page := by
  have hpending : page.pending = [] := by simp [pending, h]
  unfold trim write
  split
  · next hs => simp [List.isEmpty_iff.mp hs]
  · have hprefix : separator.reverse.isPrefixOf (separator.reverse ++ page.written) := by
      simp
    obtain ⟨written, depth, width, atLineStart⟩ := page
    obtain rfl : atLineStart = false := h
    simp only [hpending, List.reverseAux_eq, List.nil_append, if_pos hprefix]
    rw [← List.length_reverse, List.drop_left]

end Page

/-- On every page the steps write that text as if it were written at once. -/
def Writes (steps : List Step) (text : List Char) : Prop :=
  ∀ page : Page, page.run steps = page.write text

namespace Writes

open Page

variable {xs ys : List Step} {t u : List Char} {items : List (List Step)}
  {texts : List (List Char)}

theorem nil : Writes [] [] := fun _ => rfl

theorem write (text : String) : Writes [.write text] text.toList := fun _ => rfl

theorem append (hx : Writes xs t) (hy : Writes ys u) : Writes (xs ++ ys) (t ++ u) := by
  intro page
  rw [run_append, hx, hy, write_append]

theorem cons_write (text : String) (hx : Writes xs t) :
    Writes (.write text :: xs) (text.toList ++ t) :=
  (write text).append hx

theorem between {separator : String} (h : List.Forall₂ Writes items texts) :
    Writes (Step.between separator items) (separator.toList.intercalate texts) := by
  induction h with
  | nil => exact nil
  | @cons item text items texts hitem htail ih =>
    cases htail with
    | nil =>
      rw [Step.between, List.intercalate_singleton, List.intercalate_singleton]
      exact hitem
    | cons _ _ =>
      rw [Step.between, List.intercalate_cons_cons, List.intercalate_cons_cons]
      exact (hitem.append (write separator)).append ih

theorem flatMap (separator : String) (h : List.Forall₂ Writes items texts) :
    Writes (items.flatMap (· ++ [.write separator])) (texts.flatMap (· ++ separator.toList)) := by
  induction h with
  | nil => exact nil
  | cons hitem _ ih => exact (hitem.append (write separator)).append ih

/-- Behind what opens a list, taking back the last separator leaves separators between the items. -/
theorem separated (opening : Opening) (separator : String) (h : List.Forall₂ Writes items texts) :
    Writes (.write opening.text :: Step.separated separator items)
      (opening.text.toList ++ separator.toList.intercalate texts) := by
  intro page
  have hopening : (page.write opening.text.toList).atLineStart = false :=
    page.atLineStart_write_of_ne_nil (by simpa using opening.ne_empty)
  have hrun : page.run (.write opening.text :: Step.separated separator items) =
      (page.write opening.text.toList).run (Step.separated separator items) := rfl
  rw [hrun, write_append]
  cases h with
  | nil => rfl
  | @cons item text items texts hitem htail =>
    have hitems := flatMap separator (.cons hitem htail)
    rw [Step.separated, run_append, hitems, Inline.flatMap_concat, ← Inline.intercalate_cons,
      write_append]
    exact trim_write (atLineStart_write hopening _) separator.toList

end Writes

namespace Line

theorem intercalate_spaced (text : List Char) (texts : List (List Char)) :
    ",".toList.intercalate ((text :: texts).map (' ' :: ·)) =
      ' ' :: ", ".toList.intercalate (text :: texts) := by
  rw [List.map_cons, Inline.intercalate_cons, Inline.intercalate_cons, List.flatMap_map]
  rfl

mutual

theorem writes_trimmed (l : Line) : Writes l.trimmed l.content := by
  cases l with
  | empty => exact .nil
  | text t => exact .write t
  | append first second => exact first.writes_trimmed.append second.writes_trimmed
  | listed opening items => exact .separated opening ", " (writes_allTrimmed items)
  | spaced opening items =>
    have hitems := writes_allTrimmed items
    cases items with
    | nil => exact .separated opening "," .nil
    | cons item items =>
      have hspaced : List.Forall₂ Writes ((allTrimmed (item :: items)).map (.write " " :: ·))
          ((allContent (item :: items)).map (' ' :: ·)) :=
        List.forall₂_map_left_iff.mpr <| List.forall₂_map_right_iff.mpr <|
          hitems.imp fun _ _ h => h.cons_write " "
      have h := Writes.separated opening "," hspaced
      rwa [allContent, intercalate_spaced] at h
termination_by structural l

theorem writes_allTrimmed (ls : List Line) :
    List.Forall₂ Writes (allTrimmed ls) (allContent ls) := by
  cases ls with
  | nil => exact .nil
  | cons l ls => exact .cons l.writes_trimmed (writes_allTrimmed ls)
termination_by structural ls

end

mutual

theorem writes_joined (l : Line) : Writes l.joined l.content := by
  cases l with
  | empty => exact .nil
  | text t => exact .write t
  | append first second => exact first.writes_joined.append second.writes_joined
  | listed opening items => exact .cons_write opening.text (.between (writes_allJoined items))
  | spaced opening items =>
    have hitems := writes_allJoined items
    cases items with
    | nil => exact .cons_write opening.text .nil
    | cons item items => exact .cons_write opening.text (.cons_write " " (.between hitems))
termination_by structural l

theorem writes_allJoined (ls : List Line) : List.Forall₂ Writes (allJoined ls) (allContent ls) := by
  cases ls with
  | nil => exact .nil
  | cons l ls => exact .cons l.writes_joined (writes_allJoined ls)
termination_by structural ls

end

mutual

theorem oneLine_trimmed (l : Line) : OneLine l.trimmed := by
  cases l with
  | empty => exact .nil
  | text t => exact .write t
  | append first second => exact .append first.oneLine_trimmed second.oneLine_trimmed
  | listed opening items =>
    exact .cons_write opening.text (.separated (.inr rfl) (oneLine_allTrimmed items))
  | spaced opening items =>
    have hitems := oneLine_allTrimmed items
    refine .cons_write opening.text (.separated (.inl rfl) fun item hitem => ?_)
    obtain ⟨steps, hsteps, rfl⟩ := List.mem_map.mp hitem
    exact .cons_write " " (hitems steps hsteps)
termination_by structural l

theorem oneLine_allTrimmed (ls : List Line) : ∀ item ∈ allTrimmed ls, OneLine item := by
  cases ls with
  | nil => exact List.forall_mem_nil _
  | cons l ls => exact List.forall_mem_cons.mpr ⟨l.oneLine_trimmed, oneLine_allTrimmed ls⟩
termination_by structural ls

end

end Line

namespace Draft

/-- The steps that write the draft when lines are written that way, with terminators if `ended`. -/
def steps (written : Line → List Step) (ended : Bool) : Draft → List Step
  | empty => []
  | line l => written l
  | lineEnd => [.newline]
  | append first second => first.steps written ended ++ second.steps written ended
  | block lines => Step.braces (lines.steps written ended)
  | terminator => if ended then [.write ";"] else []
  | unterminated part => part.steps written false

@[simp]
theorem steps_append (written : Line → List Step) (ended : Bool) (a b : Draft) :
    (a ++ b).steps written ended = a.steps written ended ++ b.steps written ended := rfl

theorem steps_row (written : Line → List Step) (ended : Bool) (ds : List Draft) :
    (row ds).steps written ended = ds.flatMap (·.steps written ended) := by
  induction ds with
  | nil => rfl
  | cons d ds ih => exact congrArg (d.steps written ended ++ ·) ih

abbrev trimmed (ended : Bool) (d : Draft) : List Step := d.steps Line.trimmed ended

abbrev joined (ended : Bool) (d : Draft) : List Step := d.steps Line.joined ended

theorem composed (d : Draft) (ended : Bool) : Composed (d.trimmed ended) := by
  induction d generalizing ended with
  | empty => exact .nil
  | line l => exact l.oneLine_trimmed.composed
  | lineEnd => exact .newline
  | append first second ihf ihs => exact .append (ihf ended) (ihs ended)
  | block lines ih => exact .braces (ih ended)
  | terminator =>
    cases ended with
    | false => exact .nil
    | true => exact .write ";"
  | unterminated part ih => exact ih false

theorem run_congr {xs ys us vs : List Step} (hx : ∀ page : Page, page.run xs = page.run us)
    (hy : ∀ page : Page, page.run ys = page.run vs) (page : Page) :
    page.run (xs ++ ys) = page.run (us ++ vs) := by
  rw [Page.run_append, Page.run_append, hx, hy]

theorem run_trimmed (d : Draft) (ended : Bool) (page : Page) :
    page.run (d.trimmed ended) = page.run (d.joined ended) := by
  induction d generalizing ended page with
  | empty | lineEnd | terminator => rfl
  | line l => exact (l.writes_trimmed page).trans (l.writes_joined page).symm
  | append first second ihf ihs => exact run_congr (ihf ended) (ihs ended) page
  | block lines ih =>
    simp only [steps, Confined.run_braces, ih]
  | unterminated part ih => exact ih false page

end Draft

end Interlingua
