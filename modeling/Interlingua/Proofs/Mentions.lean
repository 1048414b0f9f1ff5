import Interlingua.Tree.Stmt

namespace Interlingua

inductive Mention where
  | literal (text : String)
  | string (text : String)
  | template (text : String)
  /-- A variable, where it is used, declared, or ranges over a loop. -/
  | name (text : String)
  /-- The name of a type, a member, an argument, a method or a parameter, or a modifier. -/
  | label (text : String)
  | method (name : String) (parameters : List Parameter)
deriving DecidableEq

namespace Mention

def leaf? : Mention → Option String
  | literal text | string text | template text | name text => some text
  | label _ | method .. => none

end Mention

mutual

/-- All texts in reading order, each with what it is there. The attributes of methods are left out.
-/
def Expr.mentions : Expr → List Mention
  | .literal text => [.literal text]
  | .string text => [.string text]
  | .template text => [.template text]
  | .identifier text => [.name text]
  | .binary left _ right => left.mentions ++ right.mentions
  | .before _ e | .after _ e | .grouped e => e.mentions
  | .cast typeName e => .label typeName :: e.mentions
  | .member e name _ => e.mentions ++ [.label name]
  | .element target index => target.mentions ++ Argument.allMentions index
  | .call callee arguments => callee.mentions ++ Argument.allMentions arguments
  | .create typeName arguments => .label typeName :: Argument.allMentions arguments
  | .array elementType elements => elementType.toList.map .label ++ Expr.allMentions elements
  | .assign target _ value => target.mentions ++ value.mentions
termination_by structural e => e

def Argument.mentions : Argument → List Mention
  | ⟨name, value⟩ => name.toList.map .label ++ Expr.optMentions value
termination_by structural a => a

def Expr.optMentions : Option Expr → List Mention
  | none => []
  | some e => e.mentions
termination_by structural e => e

def Expr.allMentions : List Expr → List Mention
  | [] => []
  | e :: es => e.mentions ++ Expr.allMentions es
termination_by structural es => es

def Argument.allMentions : List Argument → List Mention
  | [] => []
  | a :: as => a.mentions ++ Argument.allMentions as
termination_by structural as => as

end

def Parameter.mentions (p : Parameter) : List Mention :=
  p.typeName.toList.map .label ++ [.label p.name]

def Signature.mentions (s : Signature) : List Mention :=
  .method s.name s.parameters ::
    (s.modifiers.map .label ++ .label s.name :: s.parameters.flatMap Parameter.mentions)

mutual

def Stmt.mentions : Stmt → List Mention
  | .expr e => e.mentions
  | .block body => Stmt.allMentions body
  | .declare typeName name initializer => .label typeName :: .name name :: initializer.mentions
  | .method signature body => signature.mentions ++ Stmt.allMentions body
  | .conditional condition body rest => condition.mentions ++ (body.mentions ++ rest.mentions)
  | .forLoop initializer condition step body =>
    Stmt.optMentions initializer ++
      (Expr.optMentions condition ++ (Expr.optMentions step ++ body.mentions))
  | .forEach item iterable body => .name item :: (iterable.mentions ++ body.mentions)
  | .whileLoop condition body => condition.mentions ++ body.mentions
  | .breakLoop | .continueLoop => []
  | .ret value => Expr.optMentions value
  | .guarded body catches final =>
    Stmt.allMentions body ++ (Catch.allMentions catches ++ Stmt.optAllMentions final)
termination_by structural s => s

def Else.mentions : Else → List Mention
  | .absent => []
  | .elseIf condition body rest => condition.mentions ++ (body.mentions ++ rest.mentions)
  | .block body => Stmt.allMentions body
termination_by structural r => r

def Catch.mentions : Catch → List Mention
  | ⟨typeName, body⟩ => typeName.toList.map .label ++ Stmt.allMentions body
termination_by structural c => c

def Stmt.optMentions : Option Stmt → List Mention
  | none => []
  | some s => s.mentions
termination_by structural s => s

def Stmt.allMentions : List Stmt → List Mention
  | [] => []
  | s :: ss => s.mentions ++ Stmt.allMentions ss
termination_by structural ss => ss

def Stmt.optAllMentions : Option (List Stmt) → List Mention
  | none => []
  | some body => Stmt.allMentions body
termination_by structural b => b

def Catch.allMentions : List Catch → List Mention
  | [] => []
  | c :: cs => c.mentions ++ Catch.allMentions cs
termination_by structural cs => cs

end

def Node.mentions : Node → List Mention
  | .stmt s => s.mentions
  | .expr e => e.mentions

/-- The leaves of a tree without those of attributes. -/
def Node.writtenLeaves (n : Node) : List String := n.mentions.filterMap Mention.leaf?

variable {p : Char → Bool}

@[simp]
def Mention.marks (p : Char → Bool) : Mention → List Char
  | literal text | string text | template text | name text => text.toList.filter p
  | label _ | method .. => []

def Mention.allMarks (p : Char → Bool) (ms : List Mention) : List Char := ms.flatMap (·.marks p)

@[simp]
def Mention.Avoids (p : Char → Bool) : Mention → Prop
  | label text => text.toList.filter p = []
  | _ => True

def LabelsAvoid (p : Char → Bool) (ms : List Mention) : Prop := ∀ m ∈ ms, m.Avoids p

namespace Mention

variable {m : Mention} {ms ns : List Mention}

@[simp]
theorem allMarks_nil : allMarks p [] = [] := rfl

@[simp]
theorem allMarks_cons : allMarks p (m :: ms) = m.marks p ++ allMarks p ms := rfl

@[simp]
theorem allMarks_append : allMarks p (ms ++ ns) = allMarks p ms ++ allMarks p ns :=
  List.flatMap_append

end Mention

namespace LabelsAvoid

variable {m : Mention} {ms ns : List Mention}

@[simp]
theorem nil : LabelsAvoid p [] := List.forall_mem_nil _

@[simp]
theorem cons_iff : LabelsAvoid p (m :: ms) ↔ m.Avoids p ∧ LabelsAvoid p ms :=
  List.forall_mem_cons

@[simp]
theorem append_iff : LabelsAvoid p (ms ++ ns) ↔ LabelsAvoid p ms ∧ LabelsAvoid p ns :=
  List.forall_mem_append

end LabelsAvoid

theorem Mention.allMarks_eq (p : Char → Bool) (ms : List Mention) :
    allMarks p ms = (ms.filterMap leaf?).flatMap (·.toList.filter p) := by
  induction ms with
  | nil => rfl
  | cons m ms ih => cases m <;> simp [List.filterMap_cons, leaf?, ih]

theorem Signature.allMarks_mentions (s : Signature) : Mention.allMarks p s.mentions = [] := by
  have hlabel : ∀ m ∈ s.mentions, m.marks p = [] := by
    intro m hm
    simp only [mentions, Parameter.mentions, List.mem_append, List.mem_map, List.mem_cons,
      List.mem_flatMap, List.not_mem_nil, or_false] at hm
    obtain rfl | ⟨l, -, rfl⟩ | rfl | ⟨q, -, ⟨l, -, rfl⟩ | rfl⟩ := hm <;> rfl
  exact List.flatMap_eq_nil_iff.mpr hlabel

theorem Signature.avoids {s : Signature} (h : LabelsAvoid p s.mentions) :
    (∀ m ∈ s.modifiers, m.toList.filter p = []) ∧ s.name.toList.filter p = [] ∧
      ∀ q ∈ s.parameters, (∀ t ∈ q.typeName, t.toList.filter p = []) ∧
        q.name.toList.filter p = [] := by
  obtain ⟨-, h⟩ := LabelsAvoid.cons_iff.mp h
  obtain ⟨hm, hs⟩ := LabelsAvoid.append_iff.mp h
  obtain ⟨hn : s.name.toList.filter p = [], hq⟩ := LabelsAvoid.cons_iff.mp hs
  refine ⟨fun m hmem => hm _ (List.mem_map_of_mem hmem), hn, fun q hmem => ?_⟩
  have hq : LabelsAvoid p q.mentions := fun m hmention =>
    hq m (List.mem_flatMap.mpr ⟨q, hmem, hmention⟩)
  obtain ⟨ht, hname⟩ := LabelsAvoid.append_iff.mp hq
  obtain ⟨hname : q.name.toList.filter p = [], -⟩ := LabelsAvoid.cons_iff.mp hname
  exact ⟨fun t htype => ht _ (List.mem_map_of_mem (Option.mem_toList.mpr htype)), hname⟩

end Interlingua
