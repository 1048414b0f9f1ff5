namespace Interlingua

structure Layout where
  indentWidth : Nat := 4
  /-- Whether statements end in a terminator; `none` leaves it to the language. -/
  terminate : Option Bool := none
deriving DecidableEq

/-- A text that is written line by line. Indentation is written late: a line end brings none, but
the next text that is not empty, for the depth at that moment. -/
structure Page where
  /-- What is written so far, the last character first. -/
  written : List Char
  depth : Nat
  width : Nat
  atLineStart : Bool

inductive Step where
  | write (text : String)
  | newline
  | indent
  | outdent
  /-- Takes back a separator that was written last. -/
  | trim (separator : String)
deriving DecidableEq

namespace Page

def blank (width : Nat) : Page := ⟨[], 0, width, true⟩

def text (page : Page) : String := String.ofList page.written.reverse

/-- The indentation that the line still lacks, if any. -/
def pending (page : Page) : List Char :=
  if page.atLineStart then List.replicate (page.depth * page.width) ' ' else []

/-- Adds text behind the indentation that is due. Empty text leaves everything as it is. -/
def write (page : Page) (text : List Char) : Page :=
  if text.isEmpty then page
  else { page with written := text.reverseAux (page.pending ++ page.written), atLineStart := false }

def trim (page : Page) (separator : List Char) : Page :=
  if separator.reverse.isPrefixOf page.written then
    { page with written := page.written.drop separator.length }
  else page

def step (page : Page) : Step → Page
  | .write text => page.write text.toList
  | .newline => { page with written := '\n' :: page.written, atLineStart := true }
  | .indent => { page with depth := page.depth + 1 }
  | .outdent => { page with depth := page.depth - 1 }
  | .trim separator => page.trim separator.toList

def run (page : Page) (steps : List Step) : Page := steps.foldl step page

end Page

def layOut (layout : Layout) (steps : List Step) : String :=
  ((Page.blank layout.indentWidth).run steps).text

theorem layOut_write (layout : Layout) (text : String) : layOut layout [.write text] = text := by
  by_cases h : text = ""
  · simp [layOut, Page.run, Page.step, Page.write, Page.blank, Page.text, h]
  · simp [layOut, Page.run, Page.step, Page.write, Page.blank, Page.text, Page.pending, h]

theorem toList_layOut_write (layout : Layout) (cs : List Char) :
    (layOut layout [.write (String.ofList cs)]).toList = cs := by
  rw [layOut_write, String.toList_ofList]

namespace Step

/-- The items in order with a separator after each, the last separator taken back. -/
def separated (separator : String) : List (List Step) → List Step
  | [] => []
  | item :: items =>
    (item :: items).flatMap (· ++ [.write separator]) ++ [.trim separator]

def braces (lines : List Step) : List Step :=
  [.write "\x7b", .indent] ++ lines ++ [.outdent, .newline, .write "\x7d"]

end Step

end Interlingua
