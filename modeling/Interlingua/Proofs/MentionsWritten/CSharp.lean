import Interlingua.Proofs.MentionsWritten.Printer

namespace Interlingua

variable {p : Char → Bool}

namespace CSharp

theorem filter_binarySpelling (hp : BeyondAscii p) (op : BinaryOperator) :
    (binarySpelling op).toList.filter p = [] := by
  cases op <;> exact hp.filter_ascii (by decide)

theorem filter_unarySpelling (hp : BeyondAscii p) (op : UnaryOperator) :
    (unarySpelling op).toList.filter p = [] := by
  cases op <;> exact hp.filter_ascii (by decide)

mutual

theorem marks_expr (hp : BeyondAscii p) (e : Expr) (h : LabelsAvoid p e.mentions) :
    marks p (expr e) = Mention.allMarks p e.mentions := by
  cases e with
  | literal text | identifier text => simp [expr, Expr.mentions]
  | string text => simp [expr, Expr.mentions, filter_stringLiteral hp]
  | template text => simp [expr, Expr.mentions, filter_interpolated hp]
  | binary left op right =>
    obtain ⟨hl, hr⟩ := LabelsAvoid.append_iff.mp h
    have hop := filter_binarySpelling hp op
    simp (disch := decide) [expr, Expr.mentions, hop, hp.filter_cons, marks_expr hp left hl,
      marks_expr hp right hr]
  | before op operand =>
    have hop := filter_unarySpelling hp op
    simp [expr, Expr.mentions, hop, marks_expr hp operand h]
  | after op operand =>
    have hop := filter_unarySpelling hp op
    simp [expr, Expr.mentions, hop, marks_expr hp operand h]
  | cast typeName operand =>
    obtain ⟨ht : typeName.toList.filter p = [], ho⟩ := LabelsAvoid.cons_iff.mp h
    simp (disch := decide) [expr, Expr.mentions, hp.filter_cons, ht, marks_expr hp operand ho]
  | grouped inner =>
    simp (disch := decide) [expr, Expr.mentions, hp.filter_cons, marks_expr hp inner h]
  | member target name isStatic =>
    obtain ⟨ht, hn⟩ := LabelsAvoid.append_iff.mp h
    obtain ⟨hn : name.toList.filter p = [], -⟩ := LabelsAvoid.cons_iff.mp hn
    simp (disch := decide) [expr, Expr.mentions, hp.filter_cons, hn, marks_expr hp target ht]
  | element target index =>
    obtain ⟨ht, hi⟩ := LabelsAvoid.append_iff.mp h
    simp (disch := decide) [expr, Expr.mentions, hp.filter_cons, marks_expr hp target ht,
      hp.marks_separated_comma, marks_arguments hp index hi]
  | call callee passed =>
    obtain ⟨hc, ha⟩ := LabelsAvoid.append_iff.mp h
    simp (disch := decide) [expr, Expr.mentions, hp.filter_cons, marks_expr hp callee hc,
      hp.marks_separated_comma, marks_arguments hp passed ha]
  | create typeName passed =>
    obtain ⟨ht : typeName.toList.filter p = [], ha⟩ := LabelsAvoid.cons_iff.mp h
    simp (disch := decide) [expr, Expr.mentions, hp.filter_cons, ht, hp.marks_separated_comma,
      marks_arguments hp passed ha]
  | array elementType elements =>
    obtain ⟨ht, he⟩ := LabelsAvoid.append_iff.mp h
    have hitems : marks p (Step.separated "," (spaced elements)) =
        Mention.allMarks p (Expr.allMentions elements) :=
      (hp.marks_separated (.inl rfl) _).trans (marks_spaced hp elements he)
    cases elementType with
    | none =>
      cases elements <;> simp (disch := decide) [expr, Expr.mentions, hp.filter_cons, hitems]
    | some name =>
      obtain ⟨hn : name.toList.filter p = [], -⟩ := LabelsAvoid.cons_iff.mp ht
      simp (disch := decide) [expr, Expr.mentions, hp.filter_cons, hn, hitems]
  | assign target op value =>
    obtain ⟨ht, hv⟩ := LabelsAvoid.append_iff.mp h
    have ht := marks_expr hp target ht
    have hv := marks_expr hp value hv
    cases op with
    | none => simp (disch := decide) [expr, Expr.mentions, hp.filter_cons, ht, hv]
    | some op =>
      have hop := filter_binarySpelling hp op
      simp (disch := decide) [expr, Expr.mentions, hop, hp.filter_cons, ht, hv]
termination_by structural e

theorem marks_argument (hp : BeyondAscii p) (a : Argument) (h : LabelsAvoid p a.mentions) :
    marks p (argument a) = Mention.allMarks p a.mentions := by
  obtain ⟨name, value⟩ := a
  obtain ⟨hn, hv⟩ := LabelsAvoid.append_iff.mp h
  have hv := marks_argumentValue hp value hv
  cases name with
  | none => simp [argument, Argument.mentions, hv]
  | some name =>
    obtain ⟨hn : name.toList.filter p = [], -⟩ := LabelsAvoid.cons_iff.mp hn
    simp (disch := decide) [argument, Argument.mentions, hp.filter_cons, hn, hv]
termination_by structural a

theorem marks_argumentValue (hp : BeyondAscii p) (v : Option Expr)
    (h : LabelsAvoid p (Expr.optMentions v)) :
    marks p (argumentValue v) = Mention.allMarks p (Expr.optMentions v) := by
  cases v with
  | none => exact (List.append_nil _).trans (hp.filter_ascii (by decide))
  | some e => exact marks_expr hp e h
termination_by structural v

theorem marks_arguments (hp : BeyondAscii p) (as : List Argument)
    (h : LabelsAvoid p (Argument.allMentions as)) :
    (arguments as).flatMap (marks p) = Mention.allMarks p (Argument.allMentions as) := by
  cases as with
  | nil => rfl
  | cons a as =>
    obtain ⟨ha, has⟩ := LabelsAvoid.append_iff.mp h
    simp [arguments, Argument.allMentions, marks_argument hp a ha, marks_arguments hp as has]
termination_by structural as

theorem marks_spaced (hp : BeyondAscii p) (es : List Expr)
    (h : LabelsAvoid p (Expr.allMentions es)) :
    (spaced es).flatMap (marks p) = Mention.allMarks p (Expr.allMentions es) := by
  cases es with
  | nil => rfl
  | cons e es =>
    obtain ⟨he, hes⟩ := LabelsAvoid.append_iff.mp h
    simp (disch := decide) [spaced, Expr.allMentions, hp.filter_cons, marks_expr hp e he,
      marks_spaced hp es hes]
termination_by structural es

end

theorem marks_signature (hp : BeyondAscii p) (s : Signature) (h : LabelsAvoid p s.mentions) :
    marks p (signature s) = [] := by
  obtain ⟨hm, hn, hq⟩ := Signature.avoids h
  have hmodifiers : marks p (s.modifiers.flatMap fun m => [.write m, .write " "]) = [] := by
    rw [marks_flatMap, List.flatMap_eq_nil_iff]
    intro m hmem
    simp (disch := decide) [hm m hmem, hp.filter_cons]
  have hparameters : ∀ q ∈ s.parameters,
      marks p [.write (q.typeName.getD "object"), .write " ", .write q.name] = [] := by
    intro q hmem
    obtain ⟨ht, hname⟩ := hq q hmem
    have htype : (q.typeName.getD "object").toList.filter p = [] := by
      cases htype : q.typeName with
      | none => exact hp.filter_ascii (by decide)
      | some t => exact ht t htype
    simp (disch := decide) [htype, hname, hp.filter_cons]
  simp (disch := decide) [signature, hmodifiers, hp.marks_separated_map_eq_nil hparameters, hn,
    hp.filter_cons]

theorem printer_keepsMarks (hp : BeyondAscii p) : printer.KeepsMarks p where
  expr := marks_expr hp
  declaration typeName name ht := by simp (disch := decide) [printer, hp.filter_cons, ht]
  signature s hs := by simp [printer, marks_signature hp s hs]
  each item := by simp (disch := decide) [printer, hp.filter_cons]
  caught typeName ht := by
    cases typeName with
    | none => simp (disch := decide) [printer, hp.filter_cons]
    | some name =>
      obtain ⟨hn : name.toList.filter p = [], -⟩ := LabelsAvoid.cons_iff.mp ht
      simp (disch := decide) [printer, hp.filter_cons, hn]
  fixed := by simp (disch := decide) [Printer.fixedParts, printer, hp.filter_cons]

theorem marks_node (hp : BeyondAscii p) (ended : Bool) (n : Node) (h : LabelsAvoid p n.mentions) :
    marks p (node ended n) = Mention.allMarks p n.mentions := by
  rw [← node_printer]
  exact Printer.marks_node hp (printer_keepsMarks hp) ended n h

end CSharp

end Interlingua
