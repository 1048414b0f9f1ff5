import Interlingua.Text.Word

namespace Interlingua.Template

open Text (isWord)

inductive Part where
  | text (text : String)
  /-- A variable, written with braces when `braced`. -/
  | ref (scope : Option String) (name : String) (braced : Bool)
  | expr (source : String)
deriving DecidableEq

/-- The name between braces; what stands before the first colon, if anything, is its scope. -/
def bracedName (body : List Char) : Part :=
  match body.takeWhile (· ≠ ':'), body.dropWhile (· ≠ ':') with
  | c :: scope, _ :: name => .ref (some (String.ofList (c :: scope))) (String.ofList name) true
  | _, _ => .ref none (String.ofList body) true

def qualified : List Char → Option (List Char × List Char)
  | ':' :: cs =>
    if (cs.takeWhile isWord).isEmpty then none
    else some (cs.takeWhile isWord, cs.dropWhile isWord)
  | _ => none

def plainName (cs : List Char) : Option (Part × List Char) :=
  if (cs.takeWhile isWord).isEmpty then none
  else
    let first := String.ofList (cs.takeWhile isWord)
    match qualified (cs.dropWhile isWord) with
    | some (name, rest) => some (.ref (some first) (String.ofList name) false, rest)
    | none => some (.ref none first false, cs.dropWhile isWord)

/-- What stands before the parenthesis that closes the outermost of `depth + 1` open ones, and
what follows that parenthesis. -/
def enclosed : Nat → List Char → Option (List Char × List Char)
  | _, [] => none
  | 0, ')' :: cs => some ([], cs)
  | depth + 1, ')' :: cs => (enclosed depth cs).map fun r => (')' :: r.1, r.2)
  | depth, '(' :: cs => (enclosed (depth + 1) cs).map fun r => ('(' :: r.1, r.2)
  | depth, c :: cs => (enclosed depth cs).map fun r => (c :: r.1, r.2)

/-- The reference whose `$` has just been read, and what follows it. -/
def reference : List Char → Option (Part × List Char)
  | '{' :: cs =>
    match cs.dropWhile (· ≠ '}') with
    | [] => none
    | _ :: rest => some (bracedName (cs.takeWhile (· ≠ '}')), rest)
  | '(' :: cs => (enclosed 0 cs).map fun r => (.expr (String.ofList r.1), r.2)
  | cs => plainName cs

theorem length_of_enclosed {depth : Nat} {cs source rest : List Char}
    (h : enclosed depth cs = some (source, rest)) : rest.length < cs.length := by
  fun_induction enclosed depth cs generalizing source with
  | case1 => simp at h
  | case2 cs => simp_all
  | case3 depth cs ih | case4 depth cs ih | case5 depth c cs _ _ _ ih =>
    obtain ⟨⟨s, r⟩, hr, he⟩ := Option.map_eq_some_iff.1 h
    cases he
    exact Nat.lt_succ_of_lt (ih hr)

theorem length_of_qualified {cs name rest : List Char} (h : qualified cs = some (name, rest)) :
    rest.length ≤ cs.length := by
  unfold qualified at h
  split at h
  · next tail =>
    have drop : (tail.dropWhile isWord).length ≤ tail.length :=
      (List.dropWhile_suffix isWord).length_le
    split at h
    · simp at h
    · cases h
      simp only [List.length_cons]
      omega
  · simp at h

theorem length_of_plainName {cs rest : List Char} {part : Part}
    (h : plainName cs = some (part, rest)) : rest.length ≤ cs.length := by
  have drop : (cs.dropWhile isWord).length ≤ cs.length :=
    (List.dropWhile_suffix isWord).length_le
  unfold plainName at h
  split at h
  · simp at h
  · simp only at h
    split at h
    · next hq =>
      cases h
      have := length_of_qualified hq
      omega
    · cases h
      exact drop

theorem length_of_reference {cs rest : List Char} {part : Part}
    (h : reference cs = some (part, rest)) : rest.length ≤ cs.length := by
  unfold reference at h
  split at h
  · next tail =>
    have drop : (tail.dropWhile (· ≠ '}')).length ≤ tail.length :=
      (List.dropWhile_suffix _).length_le
    split at h
    · simp at h
    · next heq =>
      cases h
      rw [heq] at drop
      simp only [List.length_cons] at drop ⊢
      omega
  · next tail =>
    obtain ⟨⟨s, r⟩, hr, he⟩ := Option.map_eq_some_iff.1 h
    cases he
    have := length_of_enclosed hr
    simp only [List.length_cons]
    omega
  · exact length_of_plainName h

/-- Puts gathered text, the last character first, in front as a part unless there is none. -/
def withText : List Char → List Part → List Part
  | [], parts => parts
  | text, parts => .text (String.ofList text.reverse) :: parts

/-- Splits what is left of a template, `text` being gathered already. -/
def scan (text : List Char) : List Char → List Part
  | [] => withText text []
  | c :: cs =>
    if c = '$' then
      match h : reference cs with
      | some (part, rest) =>
        have := length_of_reference h
        withText text (part :: scan [] rest)
      | none => scan (c :: text) cs
    else scan (c :: text) cs
termination_by cs => cs.length
decreasing_by all_goals simp_wf <;> omega

/-- Splits a template into its text and its references, in order. A reference is `$name`,
`$scope:name`, `${name}`, `${scope:name}` or `$( … )` with balanced parentheses; a `$` that starts
none of these is text. -/
def parts (template : String) : List Part := scan [] template.toList

end Interlingua.Template
