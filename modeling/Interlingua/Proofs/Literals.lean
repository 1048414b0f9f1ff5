import Interlingua.Proofs.StmtMap

namespace Interlingua

section

variable (f : String → String)

mutual

def Expr.mapLiterals : Expr → Expr
  | .literal text => .literal (f text)
  | .string text => .string text
  | .template text => .template text
  | .identifier text => .identifier text
  | .binary left op right => .binary left.mapLiterals op right.mapLiterals
  | .before op e => .before op e.mapLiterals
  | .after op e => .after op e.mapLiterals
  | .cast typeName e => .cast typeName e.mapLiterals
  | .grouped e => .grouped e.mapLiterals
  | .member e name isStatic => .member e.mapLiterals name isStatic
  | .element target index => .element target.mapLiterals (Argument.allMapLiterals index)
  | .call callee arguments => .call callee.mapLiterals (Argument.allMapLiterals arguments)
  | .create typeName arguments => .create typeName (Argument.allMapLiterals arguments)
  | .array elementType elements => .array elementType (Expr.allMapLiterals elements)
  | .assign target op value => .assign target.mapLiterals op value.mapLiterals
termination_by structural e => e

def Argument.mapLiterals : Argument → Argument
  | ⟨name, value⟩ => ⟨name, Expr.optMapLiterals value⟩
termination_by structural a => a

def Expr.optMapLiterals : Option Expr → Option Expr
  | none => none
  | some e => some e.mapLiterals
termination_by structural e => e

def Expr.allMapLiterals : List Expr → List Expr
  | [] => []
  | e :: es => e.mapLiterals :: Expr.allMapLiterals es
termination_by structural es => es

def Argument.allMapLiterals : List Argument → List Argument
  | [] => []
  | a :: as => a.mapLiterals :: Argument.allMapLiterals as
termination_by structural as => as

end

def Stmt.mapLiterals (s : Stmt) : Stmt := s.map (Expr.mapLiterals f) id

def Node.mapLiterals (n : Node) : Node := n.map (Expr.mapLiterals f) id

end

variable {f : String → String}

@[simp]
theorem Expr.optMapLiterals_eq (e : Option Expr) :
    Expr.optMapLiterals f e = e.map (Expr.mapLiterals f) := by
  cases e <;> rfl

@[simp]
theorem Expr.allMapLiterals_eq (es : List Expr) :
    Expr.allMapLiterals f es = es.map (Expr.mapLiterals f) := by
  induction es with
  | nil => rfl
  | cons e es ih => rw [Expr.allMapLiterals, List.map_cons, ih]

@[simp]
theorem Argument.allMapLiterals_eq (as : List Argument) :
    Argument.allMapLiterals f as = as.map (Argument.mapLiterals f) := by
  induction as with
  | nil => rfl
  | cons a as ih => rw [Argument.allMapLiterals, List.map_cons, ih]

namespace Argument

@[simp]
theorem name_mapLiterals (a : Argument) : (a.mapLiterals f).name = a.name := by
  cases a
  rfl

@[simp]
theorem value_mapLiterals (a : Argument) :
    (a.mapLiterals f).value = a.value.map (Expr.mapLiterals f) := by
  cases a
  simp [mapLiterals]

@[simp]
theorem mapLiterals_positional (e : Expr) :
    (positional e).mapLiterals f = positional (e.mapLiterals f) := rfl

end Argument

mutual

theorem Expr.mapLiterals_id (e : Expr) : e.mapLiterals id = e := by
  cases e with
  | literal | string | template | identifier => rfl
  | binary left op right | assign left op right =>
    rw [Expr.mapLiterals, left.mapLiterals_id, right.mapLiterals_id]
  | before _ e | after _ e | cast _ e | grouped e | member e _ _ =>
    rw [Expr.mapLiterals, e.mapLiterals_id]
  | element e arguments | call e arguments =>
    rw [Expr.mapLiterals, e.mapLiterals_id, Argument.allMapLiterals_id arguments]
  | create typeName arguments => rw [Expr.mapLiterals, Argument.allMapLiterals_id arguments]
  | array elementType elements => rw [Expr.mapLiterals, Expr.allMapLiterals_id elements]
termination_by structural e

theorem Argument.mapLiterals_id (a : Argument) : a.mapLiterals id = a := by
  obtain ⟨name, value⟩ := a
  rw [Argument.mapLiterals, Expr.optMapLiterals_id value]
termination_by structural a

theorem Expr.optMapLiterals_id (e : Option Expr) : Expr.optMapLiterals id e = e := by
  cases e with
  | none => rfl
  | some e => rw [Expr.optMapLiterals, e.mapLiterals_id]
termination_by structural e

theorem Expr.allMapLiterals_id (es : List Expr) : Expr.allMapLiterals id es = es := by
  cases es with
  | nil => rfl
  | cons e es => rw [Expr.allMapLiterals, e.mapLiterals_id, Expr.allMapLiterals_id es]
termination_by structural es

theorem Argument.allMapLiterals_id (as : List Argument) : Argument.allMapLiterals id as = as := by
  cases as with
  | nil => rfl
  | cons a as => rw [Argument.allMapLiterals, a.mapLiterals_id, Argument.allMapLiterals_id as]
termination_by structural as

end

theorem Stmt.mapLiterals_id (s : Stmt) : s.mapLiterals id = s := by
  rw [Stmt.mapLiterals, funext Expr.mapLiterals_id]
  exact s.map_id

theorem Expr.call_positional_mapLiterals (callee : Expr) (es : List Expr) :
    Expr.call (callee.mapLiterals f) ((es.map (Expr.mapLiterals f)).map .positional) =
      (Expr.call callee (es.map .positional)).mapLiterals f := by
  simp [Expr.mapLiterals]

theorem attachValues_mapLiterals (as : List Argument) :
    attachValues (as.map (Argument.mapLiterals f)) =
      (attachValues as).map (Argument.mapLiterals f) := by
  fun_induction attachValues as with
  | case1 => rfl
  | case2 => rfl
  | case3 a next rest h ih =>
    have h : ((a.mapLiterals f).lacksValue && (next.mapLiterals f).isUnnamed) = true := by
      simpa [Argument.lacksValue, Argument.isUnnamed] using h
    simp [attachValues, h, ih, Argument.mapLiterals]
  | case4 a next rest h ih =>
    have h : ¬ ((a.mapLiterals f).lacksValue && (next.mapLiterals f).isUnnamed) = true := by
      simpa [Argument.lacksValue, Argument.isUnnamed] using h
    simp only [List.map_cons] at ih
    simp only [List.map_cons, attachValues, h, ih]
    rfl

theorem Expr.eq_array_of_mapLiterals {e : Expr} {elementType : Option String} {es : List Expr}
    (h : e.mapLiterals f = .array elementType es) :
    ∃ inner, e = .array elementType inner ∧ inner.map (Expr.mapLiterals f) = es := by
  cases e <;> simp_all [Expr.mapLiterals]

theorem Expr.ungrouped_mapLiterals (e : Expr) :
    (e.mapLiterals f).ungrouped = e.ungrouped.mapLiterals f := by
  fun_induction ungrouped e with
  | case1 inner ih => exact ih
  | case2 e h =>
    cases e with
    | grouped inner => exact absurd rfl (h inner)
    | _ => rfl

namespace Host

theorem flatten_mapLiterals (es : List Expr) :
    flatten (es.map (Expr.mapLiterals f)) = (flatten es).map (Expr.mapLiterals f) := by
  fun_cases flatten es with
  | case1 inner => simp [flatten, Expr.mapLiterals]
  | case2 es h =>
    obtain hes | hes := flatten_cases (es.map (Expr.mapLiterals f))
    · obtain ⟨e, rfl, he⟩ := List.map_eq_singleton_iff.mp hes
      obtain ⟨inner, rfl, -⟩ := Expr.eq_array_of_mapLiterals he
      exact (h inner rfl).elim
    · exact hes

theorem positionalValues_mapLiterals (as : List Argument) :
    positionalValues (as.map (Argument.mapLiterals f)) =
      (positionalValues as).map (Expr.mapLiterals f) := by
  simp [positionalValues, List.filter_map, List.filterMap_map, Function.comp_def,
    List.map_filterMap]

theorem namedValue_mapLiterals (as : List Argument) (name : String) :
    namedValue (as.map (Argument.mapLiterals f)) name =
      (namedValue as name).map (Expr.mapLiterals f) := by
  simp only [namedValue, argumentNamed, List.find?_map, Function.comp_def, Argument.isNamed,
    Argument.name_mapLiterals]
  cases as.find? (·.name.any (Text.sameName · name)) <;> simp

theorem bindValue_mapLiterals (as : List Argument) (name : String) (positional : List Expr) :
    bindValue (as.map (Argument.mapLiterals f)) name (positional.map (Expr.mapLiterals f)) =
      (bindValue as name positional).map (Option.map (Expr.mapLiterals f))
        (List.map (Expr.mapLiterals f)) := by
  simp only [bindValue, namedValue_mapLiterals]
  cases namedValue as name <;> simp

theorem spread_mapLiterals (value : Option Expr) :
    spread (value.map (Expr.mapLiterals f)) = (spread value).map (Argument.mapLiterals f) := by
  fun_cases spread value with
  | case1 => rfl
  | case2 value elements h =>
    simp [spread, Expr.ungrouped_mapLiterals, h, Expr.mapLiterals]
  | case3 value h =>
    simp only [spread, Option.map_some, Expr.ungrouped_mapLiterals]
    generalize value.ungrouped = e at h ⊢
    cases e with
    | array elementType es =>
      cases elementType with
      | none => exact (h es rfl).elim
      | some name => rfl
    | _ => rfl

theorem createdObject_mapLiterals (as : List Argument) :
    createdObject (as.map (Argument.mapLiterals f)) =
      (createdObject as).map (Expr.mapLiterals f) := by
  have hall : (as.map (Argument.mapLiterals f)).all isObjectParameter =
      as.all isObjectParameter := by
    rw [List.all_map]
    congr
    funext a
    simp [isObjectParameter, Argument.isNamed]
  unfold createdObject
  rw [hall, positionalValues_mapLiterals, bindValue_mapLiterals]
  split
  · generalize bindValue as "TypeName" (positionalValues as) = bound
    obtain ⟨value, rest⟩ := bound
    cases value with
    | none => rfl
    | some e =>
      cases e with
      | string typeName =>
        simp only [Prod.map, Option.map_some, Expr.mapLiterals, bindValue_mapLiterals]
        generalize bindValue as "ArgumentList" rest = bound
        obtain ⟨value, rest⟩ := bound
        cases rest <;> simp [spread_mapLiterals, Expr.mapLiterals]
      | _ => rfl
  · rfl

theorem commandExpr_mapLiterals (callee : Expr) (arguments : List Argument) :
    commandExpr ⟨callee.mapLiterals f, arguments.map (Argument.mapLiterals f)⟩ =
      (commandExpr ⟨callee, arguments⟩).mapLiterals f := by
  have hname :
      Invocation.commandName ⟨callee.mapLiterals f, arguments.map (Argument.mapLiterals f)⟩ =
        Invocation.commandName ⟨callee, arguments⟩ := by
    cases callee <;> rfl
  simp only [commandExpr, hname, createdObject_mapLiterals]
  split
  · cases createdObject arguments <;> simp [Invocation.toExpr, Expr.mapLiterals]
  · simp [Invocation.toExpr, Expr.mapLiterals]

end Host

end Interlingua
