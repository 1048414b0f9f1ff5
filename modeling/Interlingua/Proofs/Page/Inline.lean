import Mathlib.Data.List.Forall2
import Mathlib.Tactic.Choose
import Interlingua.Proofs.Page.Composed

namespace Interlingua

/-- On a page of depth zero the steps write that text and keep the depth. -/
def Inline (steps : List Step) (text : List Char) : Prop :=
  ∀ page : Page, page.depth = 0 →
    (page.run steps).depth = 0 ∧ (page.run steps).written = text.reverse ++ page.written

namespace Inline

open Page (run_append run_singleton)

variable {xs ys : List Step} {t u : List Char}

theorem nil : Inline [] [] := fun _ hd => ⟨hd, rfl⟩

theorem write (text : String) : Inline [.write text] text.toList := by
  intro page hd
  have hpending : page.pending = [] := by simp [Page.pending, hd]
  rw [run_singleton, Page.step, Page.write]
  split
  · next h => exact ⟨hd, by rw [List.isEmpty_iff.mp h]; rfl⟩
  · exact ⟨hd, by simp [hpending, List.reverseAux_eq]⟩

theorem newline : Inline [.newline] ['\n'] := fun _ hd => ⟨hd, rfl⟩

theorem append (hx : Inline xs t) (hy : Inline ys u) : Inline (xs ++ ys) (t ++ u) := by
  intro page hd
  obtain ⟨hdx, hwx⟩ := hx page hd
  obtain ⟨hdy, hwy⟩ := hy _ hdx
  rw [run_append]
  refine ⟨hdy, ?_⟩
  rw [hwy, hwx, List.reverse_append, List.append_assoc]

theorem flatMap {separator : String} {items : List (List Step)} {texts : List (List Char)}
    (h : List.Forall₂ Inline items texts) :
    Inline (items.flatMap (· ++ [.write separator])) (texts.flatMap (· ++ separator.toList)) := by
  induction h with
  | nil => exact nil
  | cons h _ ih => exact (h.append (write separator)).append ih

theorem flatMap_concat (separator text : List Char) (texts : List (List Char)) :
    (text :: texts).flatMap (· ++ separator) =
      (text ++ texts.flatMap (separator ++ ·)) ++ separator := by
  induction texts generalizing text with
  | nil => simp
  | cons u us ih =>
    rw [List.flatMap_cons, ih]
    simp only [List.flatMap_cons, List.append_assoc]

theorem separated {separator : String} {items : List (List Step)} {text : List Char}
    {texts : List (List Char)} (h : List.Forall₂ Inline items (text :: texts)) :
    Inline (Step.separated separator items)
      (text ++ texts.flatMap (separator.toList ++ ·)) := by
  have hitems : items ≠ [] := by
    rintro rfl
    cases h
  intro page hd
  obtain ⟨hdepth, hwritten⟩ := flatMap h page hd
  obtain ⟨above, hw, hrun⟩ := page.run_separated separator hitems
  rw [hrun]
  refine ⟨hdepth, ?_⟩
  rw [hw, flatMap_concat, List.reverse_append, List.append_assoc] at hwritten
  exact List.append_cancel_left hwritten

theorem intercalate_cons (separator text : List Char) (texts : List (List Char)) :
    separator.intercalate (text :: texts) = text ++ texts.flatMap (separator ++ ·) := by
  induction texts generalizing text with
  | nil => simp
  | cons u us ih =>
    rw [List.intercalate_cons_cons, ih, List.flatMap_cons, List.append_assoc, List.append_assoc]

theorem intercalate {separator : String} {items : List (List Step)} {texts : List (List Char)}
    (h : List.Forall₂ Inline items texts) :
    Inline (Step.separated separator items) (separator.toList.intercalate texts) := by
  cases texts with
  | nil =>
    cases h
    exact .nil
  | cons text texts =>
    rw [intercalate_cons]
    exact .separated h

theorem toList_layOut (h : Inline xs t) (layout : Layout) : (layOut layout xs).toList = t := by
  obtain ⟨-, hw⟩ := h (Page.blank layout.indentWidth) rfl
  rw [layOut, Page.text, hw]
  simp [Page.blank]

end Inline

def lineOf (steps : List Step) : List Char := (layOut {} steps).toList

theorem Inline.lineOf_eq {steps : List Step} {text : List Char} (h : Inline steps text) :
    lineOf steps = text :=
  h.toList_layOut {}

namespace OneLine

variable {xs ys : List Step}

theorem inline (h : OneLine xs) : Inline xs (lineOf xs) := by
  have htext : ∃ text, Inline xs text := by
    induction h with
    | nil => exact ⟨_, .nil⟩
    | write text => exact ⟨_, .write text⟩
    | append _ _ hx hy =>
      obtain ⟨t, ht⟩ := hx
      obtain ⟨u, hu⟩ := hy
      exact ⟨_, ht.append hu⟩
    | separated _ _ h =>
      choose! text htext using h
      exact ⟨_, .intercalate (List.forall₂_map_right_iff.mpr (List.forall₂_same.mpr htext))⟩
  obtain ⟨text, h⟩ := htext
  rwa [h.lineOf_eq]

theorem lineOf_append (hx : OneLine xs) (hy : OneLine ys) :
    lineOf (xs ++ ys) = lineOf xs ++ lineOf ys :=
  (hx.inline.append hy.inline).lineOf_eq

theorem lineOf_separated {separator : String} {items : List (List Step)}
    (h : ∀ item ∈ items, OneLine item) :
    lineOf (Step.separated separator items) =
      separator.toList.intercalate (items.map lineOf) := by
  have htexts : List.Forall₂ Inline items (items.map lineOf) :=
    List.forall₂_map_right_iff.mpr (List.forall₂_same.mpr fun item hi => (h item hi).inline)
  exact (Inline.intercalate htexts).lineOf_eq

end OneLine

theorem lineOf_write (text : String) : lineOf [.write text] = text.toList :=
  (Inline.write text).lineOf_eq

theorem lineOf_cons_write (text : String) {steps : List Step} (h : OneLine steps) :
    lineOf (.write text :: steps) = text.toList ++ lineOf steps :=
  ((Inline.write text).append h.inline).lineOf_eq

theorem lineOf_parentheses {steps : List Step} (h : OneLine steps) :
    lineOf ([.write "("] ++ steps ++ [.write ")"]) = '(' :: lineOf steps ++ [')'] :=
  (((Inline.write "(").append h.inline).append (.write ")")).lineOf_eq

end Interlingua
