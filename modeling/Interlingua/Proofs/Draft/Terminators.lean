import Interlingua.Proofs.Draft.Segments

namespace Interlingua

/-- The statements that hold no other statements. -/
inductive SimpleStmt where
  | expr (value : Expr)
  | declare (typeName name : String) (initializer : Expr)
  | breakLoop
  | continueLoop
  | ret (value : Option Expr)

def SimpleStmt.toStmt : SimpleStmt → Stmt
  | expr value => .expr value
  | declare typeName name initializer => .declare typeName name initializer
  | breakLoop => .breakLoop
  | continueLoop => .continueLoop
  | ret value => .ret value

mutual

/-- The simple statements outside of the headers of loops, in the order in which they are
written. -/
def Stmt.simple : Stmt → List SimpleStmt
  | .expr value => [.expr value]
  | .block body => Stmt.allSimple body
  | .declare typeName name initializer => [.declare typeName name initializer]
  | .method _ body => Stmt.allSimple body
  | .conditional _ body rest => body.simple ++ rest.simple
  | .forLoop _ _ _ body | .forEach _ _ body | .whileLoop _ body => body.simple
  | .breakLoop => [.breakLoop]
  | .continueLoop => [.continueLoop]
  | .ret value => [.ret value]
  | .guarded body catches final =>
    Stmt.allSimple body ++ Catch.allSimple catches ++ Stmt.optAllSimple final
termination_by structural s => s

def Else.simple : Else → List SimpleStmt
  | .absent => []
  | .elseIf _ body rest => body.simple ++ rest.simple
  | .block body => Stmt.allSimple body
termination_by structural r => r

def Catch.simple : Catch → List SimpleStmt
  | ⟨_, body⟩ => Stmt.allSimple body
termination_by structural c => c

def Stmt.allSimple : List Stmt → List SimpleStmt
  | [] => []
  | s :: ss => s.simple ++ Stmt.allSimple ss
termination_by structural ss => ss

def Stmt.optAllSimple : Option (List Stmt) → List SimpleStmt
  | none => []
  | some body => Stmt.allSimple body
termination_by structural b => b

def Catch.allSimple : List Catch → List SimpleStmt
  | [] => []
  | c :: cs => c.simple ++ Catch.allSimple cs
termination_by structural cs => cs

end

def Node.simple : Node → List SimpleStmt
  | .stmt s => s.simple
  | .expr _ => []

/-- The texts consist of the same chunks. In the one a semicolon stands behind each but the last,
and these chunks end in the statements. -/
def Punctuated (statements : List (List Char)) (bare ended : List Char) : Prop :=
  ∃ chunks last, bare = chunks.flatten ++ last ∧ ended = chunks.flatMap (· ++ [';']) ++ last ∧
    List.Forall₂ (· <:+ ·) statements chunks

namespace Punctuated

variable {xs ys : List (List Char)} {t t' u u' : List Char}

theorem refl (t : List Char) : Punctuated [] t t := ⟨[], t, rfl, rfl, .nil⟩

theorem single (before statement : List Char) :
    Punctuated [statement] (before ++ statement) (before ++ statement ++ [';']) :=
  ⟨[before ++ statement], [], by simp, by simp, .cons (List.suffix_append before statement) .nil⟩

theorem append (h : Punctuated xs t u) (h' : Punctuated ys t' u') :
    Punctuated (xs ++ ys) (t ++ t') (u ++ u') := by
  obtain ⟨chunks, last, rfl, rfl, hxs⟩ := h
  obtain ⟨chunks', last', rfl, rfl, hys⟩ := h'
  -- The last chunk of the first text goes on as the first chunk of the second.
  cases hys with
  | nil => exact ⟨chunks, last ++ last', by simp, by simp, by simpa using hxs⟩
  | @cons statement chunk ys chunks' hstatement hys =>
    refine ⟨chunks ++ (last ++ chunk) :: chunks', last', by simp, by simp, ?_⟩
    exact List.rel_append hxs (.cons (hstatement.trans (List.suffix_append last chunk)) hys)

theorem append_left (before : List Char) (h : Punctuated xs t u) :
    Punctuated xs (before ++ t) (before ++ u) :=
  (refl before).append h

theorem append_right (after : List Char) (h : Punctuated xs t u) :
    Punctuated xs (t ++ after) (u ++ after) := by
  simpa using h.append (refl after)

end Punctuated

@[simp]
theorem Line.content_append (a b : Line) : (a ++ b).content = a.content ++ b.content := rfl

theorem Line.lineOf_trimmed (l : Line) : lineOf l.trimmed = l.content := by
  have hrun : layOut {} l.trimmed = layOut {} [.write (String.ofList l.content)] := by
    rw [layOut, l.writes_trimmed]
    simp [layOut, Page.run, Page.step]
  rw [lineOf, hrun, toList_layOut_write]

theorem Stmt.allSimple_eq (ss : List Stmt) : Stmt.allSimple ss = ss.flatMap Stmt.simple := by
  induction ss with
  | nil => rfl
  | cons s ss ih => rw [Stmt.allSimple, List.flatMap_cons, ih]

namespace Draft

open Segment (due)

/-- The terminators of the draft stand behind these statements, one behind each, but for those in
unterminated parts. -/
inductive Terminates : Draft → List (List Char) → Prop
  | empty : Terminates .empty []
  | line (l : Line) : Terminates (.line l) []
  | lineEnd : Terminates .lineEnd []
  | append {a b : Draft} {xs ys : List (List Char)} :
      Terminates a xs → Terminates b ys → Terminates (a ++ b) (xs ++ ys)
  | block {lines : Draft} {xs : List (List Char)} :
      Terminates lines xs → Terminates (.block lines) xs
  | statement (l : Line) : Terminates (.line l ++ .terminator) [l.content]
  | unterminated (part : Draft) : Terminates (.unterminated part) []

namespace Terminates

variable {d : Draft} {xs : List (List Char)}

theorem append_lineEnd (h : Terminates d xs) : Terminates (d ++ .lineEnd) xs := by
  simpa using h.append .lineEnd

theorem row {α : Type} {f : α → Draft} {g : α → List (List Char)}
    (h : ∀ a, Terminates (f a) (g a)) (as : List α) :
    Terminates (.row (as.map f)) (as.flatMap g) := by
  induction as with
  | nil => exact .empty
  | cons a as ih => exact .append (h a) ih

/-- Where no statement is empty, terminators leave lines as they begin and put a semicolon behind
each statement. -/
theorem punctuated (h : Terminates d xs) (hxs : ∀ t ∈ xs, t ≠ []) (width depth : Nat)
    (atLineStart : Bool) :
    d.leavesLineStart true atLineStart = d.leavesLineStart false atLineStart ∧
      Punctuated xs ((d.segments false depth atLineStart).flatMap (·.chars width))
        ((d.segments true depth atLineStart).flatMap (·.chars width)) := by
  induction h generalizing depth atLineStart with
  | empty | line | lineEnd | unterminated => exact ⟨rfl, .refl _⟩
  | @append a b xs ys _ _ iha ihb =>
    obtain ⟨hxs, hys⟩ := List.forall_mem_append.mp hxs
    obtain ⟨hstart, hfirst⟩ := iha hxs depth atLineStart
    obtain ⟨hend, hsecond⟩ := ihb hys depth (a.leavesLineStart false atLineStart)
    have hleaves (ended : Bool) : (a ++ b).leavesLineStart ended atLineStart =
        b.leavesLineStart ended (a.leavesLineStart ended atLineStart) := rfl
    have hsegments (ended : Bool) : (a ++ b).segments ended depth atLineStart =
        a.segments ended depth atLineStart ++
          b.segments ended depth (a.leavesLineStart ended atLineStart) := rfl
    rw [hleaves, hleaves, hsegments, hsegments, hstart, List.flatMap_append, List.flatMap_append]
    exact ⟨hend, hfirst.append hsecond⟩
  | block _ ih =>
    obtain ⟨-, hinside⟩ := ih hxs (depth + 1) false
    refine ⟨rfl, ?_⟩
    simp only [segments, List.flatMap_append]
    exact (hinside.append_left _).append_right _
  | statement l =>
    have hne : l.content.isEmpty = false := by simpa using hxs
    have hleaves (ended : Bool) :
        (.line l ++ .terminator : Draft).leavesLineStart ended atLineStart = false := by
      change (atLineStart && l.content.isEmpty && !ended) = false
      simp [hne]
    have hsegments (ended : Bool) :
        (.line l ++ .terminator : Draft).segments ended depth atLineStart =
          due depth atLineStart ++ [.text l.content] ++ if ended then [.text [';']] else [] := by
      change (if l.content.isEmpty then [] else _) ++
        (if ended then due depth (atLineStart && l.content.isEmpty) ++ _ else []) = _
      simp [hne, due]
    rw [hleaves, hleaves, hsegments, hsegments]
    refine ⟨rfl, ?_⟩
    simpa [List.flatMap_append, Segment.chars] using Punctuated.single
      ((due depth atLineStart).flatMap (·.chars width)) l.content

theorem punctuated_layOut (h : Terminates d xs) (hxs : ∀ t ∈ xs, t ≠ []) (width : Nat) :
    Punctuated xs (layOut ⟨width, some false⟩ (d.trimmed false)).toList
      (layOut ⟨width, some true⟩ (d.trimmed true)).toList := by
  have hchars (ended : Bool) : (layOut ⟨width, some ended⟩ (d.trimmed ended)).toList =
      (d.segments ended 0 true).flatMap (·.chars width) := (Draft.indentsBy rfl _).toList_eq width
  rw [hchars, hchars]
  exact (h.punctuated hxs width 0 true).2

end Terminates

end Draft

end Interlingua
