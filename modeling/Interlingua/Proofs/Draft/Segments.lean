import Mathlib.Data.List.Induction
import Interlingua.Proofs.Draft.CSharp
import Interlingua.Proofs.Draft.PowerShell
import Interlingua.Proofs.Page.Printers

namespace Interlingua

/-- A part of a text. All but the indentations are fixed. -/
inductive Segment where
  | text (text : List Char)
  | opening
  | closing
  | lineEnd
  | indentation (depth : Nat)
deriving DecidableEq

namespace Segment

def fixed? : Segment → Option (List Char)
  | text t => some t
  | opening => some ['\x7b']
  | closing => some ['\x7d']
  | lineEnd => some ['\n']
  | indentation _ => none

/-- The characters of the segment where a level of depth has that width. -/
def chars (width : Nat) : Segment → List Char
  | text t => t
  | opening => ['\x7b']
  | closing => ['\x7d']
  | lineEnd => ['\n']
  | indentation depth => List.replicate (depth * width) ' '

/-- The indentation that is due. -/
def due (depth : Nat) (atLineStart : Bool) : List Segment :=
  if atLineStart then [.indentation depth] else []

/-- Where an indentation may stand: at the start of a line, in front of a text that is not empty.
As many blocks are open as its depth says once that text is written. -/
structure Placed (before : List Segment) (depth : Nat) (after : List Segment) : Prop where
  atLineStart : before = [] ∨ ∃ earlier, before = earlier ++ [.lineEnd]
  inFront : ∃ next rest t, after = next :: rest ∧ next.fixed? = some t ∧ t ≠ [] ∧
    (before ++ [next]).count .closing + depth = before.count .opening

/-- Each indentation among the segments is placed, with the earlier segments before it. -/
def AllPlaced (earlier segments : List Segment) : Prop :=
  ∀ before depth after, segments = before ++ .indentation depth :: after →
    Placed (earlier ++ before) depth after

end Segment

namespace Draft

open Segment

/-- Whether the draft leaves the page at the start of a line when it begins so or not. -/
def leavesLineStart (ended atLineStart : Bool) : Draft → Bool
  | empty => atLineStart
  | line l => atLineStart && l.content.isEmpty
  | lineEnd => true
  | append first second =>
    second.leavesLineStart ended (first.leavesLineStart ended atLineStart)
  | block _ => false
  | terminator => atLineStart && !ended
  | unterminated part => part.leavesLineStart false atLineStart

/-- The segments of the draft where so many blocks are open. -/
def segments (ended : Bool) (depth : Nat) (atLineStart : Bool) : Draft → List Segment
  | empty => []
  | line l => if l.content.isEmpty then [] else due depth atLineStart ++ [.text l.content]
  | lineEnd => [.lineEnd]
  | append first second =>
    first.segments ended depth atLineStart ++
      second.segments ended depth (first.leavesLineStart ended atLineStart)
  | block lines =>
    due depth atLineStart ++ [.opening] ++ lines.segments ended (depth + 1) false ++
      [.lineEnd, .indentation depth, .closing]
  | terminator => if ended then due depth atLineStart ++ [.text [';']] else []
  | unterminated part => part.segments false depth atLineStart

end Draft

namespace Page

def extend (page : Page) (text : List Char) (atLineStart : Bool) : Page :=
  { page with written := text.reverse ++ page.written, atLineStart }

theorem extend_extend (page : Page) (t u : List Char) (a b : Bool) :
    (page.extend t a).extend u b = page.extend (t ++ u) b := by
  simp [extend]

theorem extend_nil (page : Page) : page.extend [] page.atLineStart = page := rfl

theorem write_eq_extend (page : Page) {t : List Char} (h : t ≠ []) :
    page.write t = page.extend
      ((Segment.due page.depth page.atLineStart).flatMap (·.chars page.width) ++ t) false := by
  have hpending : page.pending =
      (Segment.due page.depth page.atLineStart).flatMap (·.chars page.width) := by
    unfold pending Segment.due
    split <;> simp [Segment.chars]
  rw [← hpending, write, if_neg (by simpa using h), extend, List.reverse_append,
    reverse_pending, List.reverseAux_eq, List.append_assoc]

end Page

namespace Draft

open Segment

/-- The draft is written as its segments. -/
theorem run_eq_extend (d : Draft) (ended : Bool) (page : Page) :
    page.run (d.trimmed ended) = page.extend
      ((d.segments ended page.depth page.atLineStart).flatMap (·.chars page.width))
      (d.leavesLineStart ended page.atLineStart) := by
  induction d generalizing ended page with
  | empty => rfl
  | line l =>
    rw [trimmed, steps, l.writes_trimmed page, segments, leavesLineStart]
    cases hl : l.content with
    | nil => simp [Page.write_nil, Page.extend_nil]
    | cons c cs => simp [page.write_eq_extend (List.cons_ne_nil c cs), chars]
  | lineEnd => rfl
  | append first second ihf ihs =>
    rw [trimmed, steps, Page.run_append, ihf, ihs, Page.extend_extend, segments,
      List.flatMap_append]
    rfl
  | block lines ih =>
    let inside : Page :=
      { page.extend
          ((due page.depth page.atLineStart).flatMap (·.chars page.width) ++ ['\x7b']) false with
        depth := page.depth + 1 }
    have hopen : (page.run [.write "\x7b"]).step .indent = inside :=
      congrArg (Page.step · .indent) (page.write_eq_extend (List.cons_ne_nil '\x7b' []))
    have hlines := ih ended inside
    generalize hchars : (lines.segments ended inside.depth inside.atLineStart).flatMap
      (·.chars inside.width) = chars at hlines
    have hclose (atLineStart : Bool) :
        ((inside.extend chars atLineStart).step .outdent).run [.newline, .write "\x7d"] =
          page.extend ((due page.depth page.atLineStart).flatMap (·.chars page.width) ++ ['\x7b'] ++
            chars ++ ['\n'] ++ List.replicate (page.depth * page.width) ' ' ++ ['\x7d']) false := by
      simp [inside, Page.extend, Page.run, Page.step, Page.write, Page.pending]
    rw [trimmed, steps, Confined.run_braces, hopen, hlines, hclose, segments, leavesLineStart]
    simp [List.flatMap_append, Segment.chars, ← hchars, inside, Page.extend]
  | terminator =>
    cases ended with
    | false => simp [steps, segments, leavesLineStart, Page.run, Page.extend_nil]
    | true =>
      have hrun : page.run (terminator.trimmed true) = page.write [';'] := rfl
      rw [hrun, page.write_eq_extend (List.cons_ne_nil ';' [])]
      simp [segments, leavesLineStart, Segment.chars]
  | unterminated part ih => exact ih false page

end Draft

namespace Segment

variable {earlier xs ys : List Segment} {depth : Nat} {atLineStart : Bool}

theorem Placed.append_right {before after : List Segment} (h : Placed before depth after)
    (more : List Segment) : Placed before depth (after ++ more) := by
  obtain ⟨next, rest, t, rfl, hfixed, hne, hcount⟩ := h.inFront
  exact ⟨h.atLineStart, next, rest ++ more, t, rfl, hfixed, hne, hcount⟩

namespace AllPlaced

theorem nil : AllPlaced earlier [] := by
  intro before depth after h
  simp at h

theorem fixed {s : Segment} {t : List Char} (h : s.fixed? = some t) : AllPlaced earlier [s] := by
  intro before depth after hs
  have hmem : Segment.indentation depth ∈ [s] := hs ▸ List.mem_append_right _ List.mem_cons_self
  obtain rfl := List.mem_singleton.mp hmem
  cases h

theorem append (hx : AllPlaced earlier xs) (hy : AllPlaced (earlier ++ xs) ys) :
    AllPlaced earlier (xs ++ ys) := by
  intro before depth after h
  obtain ⟨mid, rfl, hys⟩ | ⟨mid, rfl, hmid⟩ := List.append_eq_append_iff.mp h
  · rw [← List.append_assoc]
    exact hy mid depth after hys
  · cases mid with
    | nil =>
      rw [List.append_nil] at hy
      simpa using hy [] depth after hmid.symm
    | cons s mid =>
      obtain ⟨rfl, rfl⟩ := List.cons.inj hmid
      exact (hx before depth mid rfl).append_right ys

theorem indented {s : Segment} {t : List Char}
    (hline : earlier = [] ∨ ∃ before, earlier = before ++ [.lineEnd]) (hs : s.fixed? = some t)
    (ht : t ≠ []) (hcount : (earlier ++ [s]).count .closing + depth = earlier.count .opening) :
    AllPlaced earlier [.indentation depth, s] := by
  intro before found after h
  cases before with
  | nil =>
    obtain ⟨hdepth, rfl⟩ := List.cons.inj h
    obtain rfl := Segment.indentation.inj hdepth
    rw [List.append_nil]
    exact ⟨hline, s, [], t, rfl, hs, ht, hcount⟩
  | cons first before =>
    have htail : [s] = before ++ .indentation found :: after := (List.cons.inj h).2
    have hmem : Segment.indentation found ∈ [s] :=
      htail ▸ List.mem_append_right _ List.mem_cons_self
    obtain rfl := List.mem_singleton.mp hmem
    cases hs

end AllPlaced

theorem count_due (depth : Nat) (atLineStart : Bool) {s : Segment} {t : List Char}
    (hs : s.fixed? = some t) : (due depth atLineStart).count s = 0 := by
  refine List.count_eq_zero_of_not_mem fun hmem => ?_
  unfold due at hmem
  split at hmem
  · obtain rfl := List.mem_singleton.mp hmem
    cases hs
  · cases hmem

/-- So many blocks are open behind the segments, and where it is said so a line starts there. -/
structure Reached (earlier : List Segment) (depth : Nat) (atLineStart : Bool) : Prop where
  count_eq : earlier.count .closing + depth = earlier.count .opening
  lineStart : atLineStart = true → earlier = [] ∨ ∃ before, earlier = before ++ [.lineEnd]

namespace Reached

theorem allPlaced_due (h : Reached earlier depth atLineStart) {s : Segment} {t : List Char}
    (hs : s.fixed? = some t) (ht : t ≠ []) (hclosing : s ≠ .closing) :
    AllPlaced earlier (due depth atLineStart ++ [s]) := by
  cases atLineStart with
  | false => exact .fixed hs
  | true =>
    refine .indented (h.lineStart rfl) hs ht ?_
    rw [List.count_append, List.count_singleton, if_neg (by simpa using hclosing)]
    exact h.count_eq

theorem text (h : Reached earlier depth atLineStart) (t : List Char) :
    Reached (earlier ++ (due depth atLineStart ++ [.text t])) depth false := by
  refine ⟨?_, fun h => absurd h Bool.false_ne_true⟩
  simpa [count_due _ _ (s := .closing) rfl, count_due _ _ (s := .opening) rfl] using h.count_eq

theorem opening (h : Reached earlier depth atLineStart) :
    Reached (earlier ++ (due depth atLineStart ++ [.opening])) (depth + 1) false := by
  refine ⟨?_, fun h => absurd h Bool.false_ne_true⟩
  have hcount := h.count_eq
  simp [count_due _ _ (s := .closing) rfl, count_due _ _ (s := .opening) rfl]
  omega

theorem lineEnd (h : Reached earlier depth atLineStart) :
    Reached (earlier ++ [.lineEnd]) depth true :=
  ⟨by simpa using h.count_eq, fun _ => .inr ⟨earlier, rfl⟩⟩

theorem close (h : Reached earlier (depth + 1) atLineStart) :
    AllPlaced earlier [.lineEnd, .indentation depth, .closing] ∧
      Reached (earlier ++ [.lineEnd, .indentation depth, .closing]) depth false := by
  have hcount := h.count_eq
  constructor
  · have hline : AllPlaced earlier [.lineEnd] := .fixed rfl
    refine hline.append (.indented (.inr ⟨earlier, rfl⟩) rfl (List.cons_ne_nil _ _) ?_)
    simp
    omega
  · refine ⟨?_, fun h => absurd h Bool.false_ne_true⟩
    simp
    omega

end Reached

end Segment

namespace Draft

open Segment

/-- The indentations of a draft are placed behind segments that leave so many blocks open, and as
many are open behind it. -/
theorem allPlaced_segments (d : Draft) (ended : Bool) {earlier : List Segment} {depth : Nat}
    {atLineStart : Bool} (h : Reached earlier depth atLineStart) :
    AllPlaced earlier (d.segments ended depth atLineStart) ∧
      Reached (earlier ++ d.segments ended depth atLineStart) depth
        (d.leavesLineStart ended atLineStart) := by
  induction d generalizing ended earlier depth atLineStart with
  | empty => exact ⟨.nil, by simpa [segments, leavesLineStart] using h⟩
  | line l =>
    rw [segments, leavesLineStart]
    cases hl : l.content with
    | nil => exact ⟨.nil, by simpa using h⟩
    | cons c cs =>
      have htext := h.allPlaced_due (s := .text (c :: cs)) rfl (List.cons_ne_nil c cs) (by simp)
      exact ⟨htext, by simpa using h.text (c :: cs)⟩
  | lineEnd => exact ⟨.fixed rfl, h.lineEnd⟩
  | append first second ihf ihs =>
    obtain ⟨hfirst, hmid⟩ := ihf ended h
    obtain ⟨hsecond, hend⟩ := ihs ended hmid
    exact ⟨hfirst.append hsecond, by rwa [segments, leavesLineStart, ← List.append_assoc]⟩
  | block lines ih =>
    have hbrace := h.allPlaced_due (s := .opening) rfl (List.cons_ne_nil _ _) (by simp)
    obtain ⟨hlines, hinside⟩ := ih ended h.opening
    obtain ⟨hclose, hend⟩ := hinside.close
    rw [List.append_assoc] at hclose
    refine ⟨(hbrace.append hlines).append hclose, ?_⟩
    simpa [segments, leavesLineStart, List.append_assoc] using hend
  | terminator =>
    cases ended with
    | false => exact ⟨.nil, by simpa [segments, leavesLineStart] using h⟩
    | true =>
      have htext := h.allPlaced_due (s := .text [';']) rfl (List.cons_ne_nil _ _) (by simp)
      exact ⟨htext, by simpa [segments, leavesLineStart] using h.text [';']⟩
  | unterminated part ih => exact ih false h

end Draft

/-- Whether there are only spaces since the last line end, if so at the beginning. -/
def blankBehind (blank : Bool) (cs : List Char) : Bool :=
  cs.foldl (fun blank c => c == '\n' || blank && c == ' ') blank

/-- The text without the spaces at the starts of its lines, of which the first goes on as said. -/
def unindented : Bool → List Char → List Char
  | _, [] => []
  | blank, c :: cs =>
    (if blank && c == ' ' then [] else [c]) ++ unindented (blankBehind blank [c]) cs

theorem unindented_append (blank : Bool) (xs ys : List Char) :
    unindented blank (xs ++ ys) = unindented blank xs ++ unindented (blankBehind blank xs) ys := by
  induction xs generalizing blank with
  | nil => rfl
  | cons x xs ih =>
    rw [List.cons_append, unindented, unindented, ih, List.append_assoc]
    rfl

theorem blankBehind_append (blank : Bool) (xs ys : List Char) :
    blankBehind blank (xs ++ ys) = blankBehind (blankBehind blank xs) ys :=
  List.foldl_append

theorem unindented_replicate (n : Nat) :
    unindented true (List.replicate n ' ') = [] ∧
      blankBehind true (List.replicate n ' ') = true := by
  induction n with
  | zero => exact ⟨rfl, rfl⟩
  | succ n ih => exact ih

theorem Segment.blankBehind_of_lineStart {before : List Segment}
    (h : before = [] ∨ ∃ earlier, before = earlier ++ [.lineEnd]) (width : Nat) :
    blankBehind true (before.flatMap (·.chars width)) = true := by
  obtain rfl | ⟨earlier, rfl⟩ := h
  · rfl
  · rw [List.flatMap_append, blankBehind_append]
    rfl

theorem Segment.unindented_chars {segments : List Segment} (h : AllPlaced [] segments)
    (w v : Nat) :
    unindented true (segments.flatMap (·.chars w)) =
      unindented true (segments.flatMap (·.chars v)) := by
  have hstart {before after : List Segment} (hsplit : segments = before ++ after) :
      unindented true (before.flatMap (·.chars w)) = unindented true (before.flatMap (·.chars v)) ∧
      blankBehind true (before.flatMap (·.chars w)) =
        blankBehind true (before.flatMap (·.chars v)) := by
    induction before using List.reverseRecOn generalizing after with
    | nil => exact ⟨rfl, rfl⟩
    | append_singleton before s ih =>
      rw [List.append_assoc] at hsplit
      obtain ⟨htext, hblank⟩ := ih hsplit
      simp only [List.flatMap_append, List.flatMap_singleton, unindented_append, blankBehind_append]
      cases s with
      | indentation depth =>
        have hline := (h before depth after hsplit).atLineStart
        rw [List.nil_append] at hline
        have hspaces (width : Nat) : unindented true ((indentation depth).chars width) = [] ∧
            blankBehind true ((indentation depth).chars width) = true :=
          unindented_replicate (depth * width)
        simp only [blankBehind_of_lineStart hline, hspaces, htext, and_self]
      | text | opening | closing | lineEnd =>
        rw [htext, hblank]
        exact ⟨rfl, rfl⟩
  exact (hstart (List.append_nil segments).symm).1

/-- The segments make up the texts for all widths of a level. Their indentations are placed, so the
texts differ in the spaces at the starts of lines at most. -/
structure IndentsBy (render : Nat → String) (segments : List Segment) : Prop where
  toList_eq : ∀ width, (render width).toList = segments.flatMap (·.chars width)
  allPlaced : Segment.AllPlaced [] segments
  unindented_eq : ∀ w v, unindented true (render w).toList = unindented true (render v).toList

theorem Draft.indentsBy {d : Draft} {steps : List Step} {ended : Bool}
    (h : d.trimmed ended = steps) (terminate : Option Bool) :
    IndentsBy (fun width => layOut ⟨width, terminate⟩ steps) (d.segments ended 0 true) := by
  subst h
  have hchars (width : Nat) : (layOut ⟨width, terminate⟩ (d.trimmed ended)).toList =
      (d.segments ended 0 true).flatMap (·.chars width) := by
    rw [layOut, d.run_eq_extend]
    simp [Page.text, Page.extend, Page.blank]
  have hplaced : Segment.AllPlaced [] (d.segments ended 0 true) :=
    (d.allPlaced_segments ended ⟨rfl, fun _ => .inl rfl⟩).1
  refine ⟨hchars, hplaced, fun w v => ?_⟩
  rw [hchars, hchars]
  exact Segment.unindented_chars hplaced w v

/-- The width of a level changes nothing but indentation: for each tree and each setting of the
terminators there are segments that make up the texts for all widths. Expressions are written the
same in every layout. -/
theorem Node.indentation_scales :
    (∀ (n : Node) (terminate : Option Bool),
      IndentsBy (fun width => CSharp.render ⟨width, terminate⟩ n)
          ((CSharp.nodeDraft n).segments (terminate.getD true) 0 true) ∧
        IndentsBy (fun width => PowerShell.render ⟨width, terminate⟩ n)
          ((PowerShell.nodeDraft n).segments (terminate.getD false) 0 true)) ∧
    ∀ (e : Expr) (layout other : Layout),
      CSharp.render layout (.expr e) = CSharp.render other (.expr e) ∧
        PowerShell.render layout (.expr e) = PowerShell.render other (.expr e) := by
  refine ⟨fun n terminate => ⟨?_, ?_⟩, fun e layout other => ⟨?_, ?_⟩⟩
  · exact Draft.indentsBy (CSharp.trimmed_nodeDraft (terminate.getD true) n) terminate
  · exact Draft.indentsBy (PowerShell.trimmed_nodeDraft (terminate.getD false) n) terminate
  · have hline := (CSharp.oneLine_expr e).inline
    exact String.toList_inj.mp ((hline.toList_layOut layout).trans (hline.toList_layOut other).symm)
  · have hline := (PowerShell.oneLine_expr e).inline
    exact String.toList_inj.mp ((hline.toList_layOut layout).trans (hline.toList_layOut other).symm)

/-- No indentation stands on the line of a statement that is written as no text. -/
example :
    (PowerShell.nodeDraft (.stmt (.whileLoop (.identifier "c")
      (.block [.expr (.literal ""), .breakLoop])))).segments false 0 true =
      [.indentation 0, .text "while ($c) ".toList, .opening, .lineEnd, .lineEnd, .indentation 1,
        .text "break".toList, .lineEnd, .indentation 0, .closing, .lineEnd] := rfl

end Interlingua
