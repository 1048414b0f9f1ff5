import Interlingua.Proofs.Draft.CSharp
import Interlingua.Proofs.Draft.PowerShell

namespace Interlingua

def OnlyAdds (steps : List Step) : Prop := ∀ separator, .trim separator ∉ steps

namespace OnlyAdds

variable {xs ys : List Step}

theorem nil : OnlyAdds [] := fun _ => List.not_mem_nil

theorem write (text : String) : OnlyAdds [.write text] := by simp [OnlyAdds]

theorem append (hx : OnlyAdds xs) (hy : OnlyAdds ys) : OnlyAdds (xs ++ ys) := by
  intro separator h
  exact (List.mem_append.mp h).elim (hx separator) (hy separator)

theorem cons_write (text : String) (hx : OnlyAdds xs) : OnlyAdds (.write text :: xs) :=
  (write text).append hx

theorem between {separator : String} {items : List (List Step)}
    (h : ∀ item ∈ items, OnlyAdds item) : OnlyAdds (Step.between separator items) := by
  unfold Step.between
  induction items with
  | nil => exact nil
  | cons item items ih =>
    obtain ⟨hitem, hitems⟩ := List.forall_mem_cons.mp h
    cases items with
    | nil => rwa [List.intercalate_singleton]
    | cons next items =>
      rw [List.intercalate_cons_cons]
      exact (hitem.append (write separator)).append (ih hitems)

end OnlyAdds

namespace Line

mutual

theorem onlyAdds_joined (l : Line) : OnlyAdds l.joined := by
  cases l with
  | empty => exact .nil
  | text t => exact .write t
  | append first second => exact first.onlyAdds_joined.append second.onlyAdds_joined
  | listed opening items =>
    exact .cons_write opening.text (.between (onlyAdds_allJoined items))
  | spaced opening items =>
    have hitems := onlyAdds_allJoined items
    refine .cons_write opening.text ?_
    split
    · exact .nil
    · exact .cons_write " " (.between hitems)
termination_by structural l

theorem onlyAdds_allJoined (ls : List Line) : ∀ item ∈ allJoined ls, OnlyAdds item := by
  cases ls with
  | nil => exact List.forall_mem_nil _
  | cons l ls => exact List.forall_mem_cons.mpr ⟨l.onlyAdds_joined, onlyAdds_allJoined ls⟩
termination_by structural ls

end

end Line

theorem Draft.onlyAdds_joined (d : Draft) (ended : Bool) : OnlyAdds (d.joined ended) := by
  induction d generalizing ended with
  | empty => exact .nil
  | line l => exact l.onlyAdds_joined
  | lineEnd => simp [OnlyAdds, steps]
  | append first second ihf ihs => exact (ihf ended).append (ihs ended)
  | block lines ih =>
    intro separator h
    exact ih ended separator (by simpa [steps, Step.braces] using h)
  | terminator =>
    cases ended with
    | false => exact .nil
    | true => exact .write ";"
  | unterminated part ih => exact ih false

theorem Draft.layOut_trimmed (layout : Layout) (d : Draft) (ended : Bool) :
    layOut layout (d.trimmed ended) = layOut layout (d.joined ended) :=
  congrArg Page.text (d.run_trimmed ended (Page.blank layout.indentWidth))

def CSharp.renderJoined (layout : Layout) (n : Node) : String :=
  layOut layout ((nodeDraft n).joined (layout.terminate.getD true))

def PowerShell.renderJoined (layout : Layout) (n : Node) : String :=
  layOut layout ((nodeDraft n).joined (layout.terminate.getD false))

/-- Both printers write drafts with a separator behind each item of a list, the last one taken back.
Written with separators between the items instead, which takes nothing back, the draft is laid out
as the same text. On every page a line comes out as its content: of a list that is what opens it and
the contents of the items with separators between, whatever they are. -/
theorem Node.render_eq_renderJoined (layout : Layout) (n : Node) :
    (CSharp.render layout n = CSharp.renderJoined layout n ∧
      PowerShell.render layout n = PowerShell.renderJoined layout n) ∧
    (∀ ended, CSharp.node ended n = (CSharp.nodeDraft n).trimmed ended ∧
      PowerShell.node ended n = (PowerShell.nodeDraft n).trimmed ended) ∧
    (∀ ended, OnlyAdds ((CSharp.nodeDraft n).joined ended) ∧
      OnlyAdds ((PowerShell.nodeDraft n).joined ended)) ∧
    ∀ (l : Line) (page : Page), page.run l.trimmed = page.write l.content := by
  refine ⟨⟨?_, ?_⟩, fun ended => ⟨?_, ?_⟩, fun ended => ⟨?_, ?_⟩, fun l page => ?_⟩
  · rw [CSharp.render, ← CSharp.trimmed_nodeDraft]
    exact Draft.layOut_trimmed layout _ _
  · rw [PowerShell.render, ← PowerShell.trimmed_nodeDraft]
    exact Draft.layOut_trimmed layout _ _
  · exact (CSharp.trimmed_nodeDraft ended n).symm
  · exact (PowerShell.trimmed_nodeDraft ended n).symm
  · exact Draft.onlyAdds_joined _ ended
  · exact Draft.onlyAdds_joined _ ended
  · exact l.writes_trimmed page

/-- Items that end in a separator and empty items have separators of their own between them. -/
example :
    (Line.listed .round [.text "a, ", .empty, .text "b"]).content = "(a, , , b".toList ∧
      (Line.spaced .square [.empty, .empty]).content = "[ , ".toList := ⟨rfl, rfl⟩

end Interlingua
