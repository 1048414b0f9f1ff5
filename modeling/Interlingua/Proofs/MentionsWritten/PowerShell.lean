import Interlingua.Proofs.MentionsWritten.Printer

namespace Interlingua

variable {p : Char → Bool}

namespace PowerShell

theorem filter_binarySpelling (hp : BeyondAscii p) (op : BinaryOperator) :
    (binarySpelling op).toList.filter p = [] := by
  cases op <;> exact hp.filter_ascii (by decide)

theorem filter_unarySpelling (hp : BeyondAscii p) (op : UnaryOperator) :
    (unarySpelling op).toList.filter p = [] := by
  cases op <;> exact hp.filter_ascii (by decide)

mutual

theorem marks_expr (hp : BeyondAscii p) (e : Expr) (h : LabelsAvoid p e.mentions) :
    marks p (expr e) = Mention.allMarks p e.mentions := by
  cases e with
  | literal text => simp [expr, Expr.mentions]
  | string text => simp [expr, Expr.mentions, filter_stringLiteral hp]
  | template text => simp [expr, Expr.mentions, filter_expandable hp]
  | identifier name => simp (disch := decide) [expr, Expr.mentions, hp.filter_cons]
  | binary left op right =>
    obtain ⟨hl, hr⟩ := LabelsAvoid.append_iff.mp h
    have hop := filter_binarySpelling hp op
    simp (disch := decide) [expr, Expr.mentions, hop, hp.filter_cons, marks_expr hp left hl,
      marks_expr hp right hr]
  | before op operand =>
    have hop := filter_unarySpelling hp op
    simp [expr, Expr.mentions, hop, marks_expr hp operand h]
  | after op operand =>
    have hop := filter_unarySpelling hp op
    simp [expr, Expr.mentions, hop, marks_expr hp operand h]
  | cast typeName operand =>
    obtain ⟨ht : typeName.toList.filter p = [], ho⟩ := LabelsAvoid.cons_iff.mp h
    simp (disch := decide) [expr, Expr.mentions, hp.filter_cons, ht, marks_expr hp operand ho]
  | grouped inner =>
    simp (disch := decide) [expr, Expr.mentions, hp.filter_cons, marks_expr hp inner h]
  | member target name isStatic =>
    obtain ⟨ht, hn⟩ := LabelsAvoid.append_iff.mp h
    obtain ⟨hn : name.toList.filter p = [], -⟩ := LabelsAvoid.cons_iff.mp hn
    have ht := marks_expr hp target ht
    unfold expr
    split <;> simp (disch := decide) [Expr.mentions, hp.filter_cons, hn, ht]
  | element target index =>
    obtain ⟨ht, hi⟩ := LabelsAvoid.append_iff.mp h
    simp (disch := decide) [expr, Expr.mentions, hp.filter_cons, marks_expr hp target ht,
      hp.marks_separated_comma, marks_values hp index hi]
  | call callee passed =>
    obtain ⟨hc, ha⟩ := LabelsAvoid.append_iff.mp h
    have hc := marks_expr hp callee hc
    have hv := marks_values hp passed ha
    have ha := marks_commandArguments hp passed ha
    unfold expr
    split
    · simp [Expr.mentions, ha]
    · simp (disch := decide) [Expr.mentions, hp.filter_cons, hc, hp.marks_separated_comma, hv]
    · simp (disch := decide) [Expr.mentions, hp.filter_cons, hc, ha]
  | create typeName passed =>
    obtain ⟨ht : typeName.toList.filter p = [], ha⟩ := LabelsAvoid.cons_iff.mp h
    simp (disch := decide) [expr, Expr.mentions, hp.filter_cons, ht, hp.marks_separated_comma,
      marks_values hp passed ha]
  | array elementType elements =>
    obtain ⟨ht, he⟩ := LabelsAvoid.append_iff.mp h
    have he := marks_exprs hp elements he
    cases elementType with
    | none =>
      simp (disch := decide) [expr, Expr.mentions, hp.filter_cons, hp.marks_separated_comma, he]
    | some name =>
      obtain ⟨hn : name.toList.filter p = [], -⟩ := LabelsAvoid.cons_iff.mp ht
      simp (disch := decide) [expr, Expr.mentions, hp.filter_cons, hn, hp.marks_separated_comma, he]
  | assign target op value =>
    obtain ⟨ht, hv⟩ := LabelsAvoid.append_iff.mp h
    have ht := marks_expr hp target ht
    have hv := marks_expr hp value hv
    cases op with
    | none => simp (disch := decide) [expr, Expr.mentions, hp.filter_cons, ht, hv]
    | some op =>
      have hop := filter_binarySpelling hp op
      simp (disch := decide) [expr, Expr.mentions, hop, hp.filter_cons, ht, hv]
termination_by structural e

theorem marks_value? (hp : BeyondAscii p) (a : Argument) (h : LabelsAvoid p a.mentions) :
    ((value? a).map (marks p)).getD [] = Mention.allMarks p a.mentions := by
  obtain ⟨name, value⟩ := a
  have hv := marks_optExpr hp value (LabelsAvoid.append_iff.mp h).2
  cases name with
  | none => exact hv
  | some name => exact hv
termination_by structural a

theorem marks_optExpr (hp : BeyondAscii p) (e : Option Expr)
    (h : LabelsAvoid p (Expr.optMentions e)) :
    ((optExpr e).map (marks p)).getD [] = Mention.allMarks p (Expr.optMentions e) := by
  cases e with
  | none => rfl
  | some e => exact marks_expr hp e h
termination_by structural e

theorem marks_values (hp : BeyondAscii p) (as : List Argument)
    (h : LabelsAvoid p (Argument.allMentions as)) :
    (values as).flatMap (marks p) = Mention.allMarks p (Argument.allMentions as) := by
  cases as with
  | nil => rfl
  | cons a as =>
    obtain ⟨ha, has⟩ := LabelsAvoid.append_iff.mp h
    have ha := marks_value? hp a ha
    have has := marks_values hp as has
    rw [values, Argument.allMentions, Mention.allMarks_append, ← ha, ← has]
    split
    · next written hw => simp [hw]
    · next hw => simp [hw]
termination_by structural as

theorem marks_exprs (hp : BeyondAscii p) (es : List Expr)
    (h : LabelsAvoid p (Expr.allMentions es)) :
    (exprs es).flatMap (marks p) = Mention.allMarks p (Expr.allMentions es) := by
  cases es with
  | nil => rfl
  | cons e es =>
    obtain ⟨he, hes⟩ := LabelsAvoid.append_iff.mp h
    simp [exprs, Expr.allMentions, marks_expr hp e he, marks_exprs hp es hes]
termination_by structural es

theorem marks_commandValue (hp : BeyondAscii p) (v : Option Expr)
    (h : LabelsAvoid p (Expr.optMentions v)) :
    marks p (commandValue v) = Mention.allMarks p (Expr.optMentions v) := by
  cases v with
  | none => rfl
  | some e =>
    have he := marks_expr hp e h
    unfold commandValue
    split <;> simp (disch := decide) [Expr.optMentions, hp.filter_cons, he]
termination_by structural v

theorem marks_commandArgument (hp : BeyondAscii p) (a : Argument)
    (h : LabelsAvoid p a.mentions) :
    marks p (commandArgument a) = Mention.allMarks p a.mentions := by
  obtain ⟨name, value⟩ := a
  obtain ⟨hn, hv⟩ := LabelsAvoid.append_iff.mp h
  have hv := marks_commandValue hp value hv
  cases name with
  | none => simp [commandArgument, Argument.mentions, hv]
  | some name =>
    obtain ⟨hn : name.toList.filter p = [], -⟩ := LabelsAvoid.cons_iff.mp hn
    simp (disch := decide) [commandArgument, Argument.mentions, hp.filter_cons, hn, hv]
termination_by structural a

theorem marks_commandArguments (hp : BeyondAscii p) (as : List Argument)
    (h : LabelsAvoid p (Argument.allMentions as)) :
    marks p (commandArguments as) = Mention.allMarks p (Argument.allMentions as) := by
  cases as with
  | nil => rfl
  | cons a as =>
    obtain ⟨ha, has⟩ := LabelsAvoid.append_iff.mp h
    simp [commandArguments, Argument.allMentions, marks_commandArgument hp a ha,
      marks_commandArguments hp as has]
termination_by structural as

end

theorem marks_signature (hp : BeyondAscii p) (s : Signature) (h : LabelsAvoid p s.mentions) :
    marks p (signature s) = [] := by
  obtain ⟨-, hn, hq⟩ := Signature.avoids h
  rw [signature, marks_append, marks_append,
    hp.marks_separated_map_eq_nil ?parameters]
  · simp (disch := decide) [hn, hp.filter_cons]
  case parameters =>
    intro q hmem
    obtain ⟨ht, hname⟩ := hq q hmem
    cases htype : q.typeName with
    | none => simp (disch := decide) [hname, hp.filter_cons]
    | some t => simp (disch := decide) [hname, ht t htype, hp.filter_cons]

theorem printer_keepsMarks (hp : BeyondAscii p) : printer.KeepsMarks p where
  expr := marks_expr hp
  declaration typeName name ht := by simp (disch := decide) [printer, hp.filter_cons, ht]
  signature s hs := by simp [printer, marks_signature hp s hs]
  each item := by simp (disch := decide) [printer, hp.filter_cons]
  caught typeName ht := by
    cases typeName with
    | none => simp (disch := decide) [printer, hp.filter_cons]
    | some name =>
      obtain ⟨hn : name.toList.filter p = [], -⟩ := LabelsAvoid.cons_iff.mp ht
      simp (disch := decide) [printer, hp.filter_cons, hn]
  fixed := by simp (disch := decide) [Printer.fixedParts, printer, hp.filter_cons]

theorem marks_node (hp : BeyondAscii p) (ended : Bool) (n : Node) (h : LabelsAvoid p n.mentions) :
    marks p (node ended n) = Mention.allMarks p n.mentions := by
  rw [← node_printer]
  exact Printer.marks_node hp (printer_keepsMarks hp) ended n h

end PowerShell

end Interlingua
