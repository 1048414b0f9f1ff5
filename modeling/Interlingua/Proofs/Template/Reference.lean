import Interlingua.Proofs.Template.Nesting
import Interlingua.Template

namespace Interlingua.Template

open Text (isWord)

def fullName : Option String → String → List Char
  | none, name => name.toList
  | some scope, name => scope.toList ++ ':' :: name.toList

def Part.spelling : Part → List Char
  | .text t => t.toList
  | .ref scope name false => '$' :: fullName scope name
  | .ref scope name true => '$' :: '{' :: (fullName scope name ++ ['}'])
  | .expr source => '$' :: '(' :: (source.toList ++ [')'])

/-- A run of name characters. -/
def IsName (name : String) : Prop := name ≠ "" ∧ ∀ c ∈ name.toList, isWord c

/-- A name without braces ends where no more of it can be read. -/
structure IsPlain (scope : Option String) (name : String) (rest : List Char) : Prop where
  scope_isName : ∀ s ∈ scope, IsName s
  name_isName : IsName name
  not_word : ∀ c ∈ rest.head?, isWord c = false
  not_scope : scope = none → ∀ c cs, rest = ':' :: c :: cs → isWord c = false

/-- Between braces all up to the first colon is the scope, unless there is nothing. -/
structure IsBraced (scope : Option String) (name : String) : Prop where
  closed : '}' ∉ fullName scope name
  scope_nonempty : ∀ s ∈ scope, s ≠ "" ∧ ':' ∉ s.toList
  no_scope : scope = none → ':' ∈ name.toList → name.toList.head? = some ':'

/-- Parentheses match when `depth` of them are open already. -/
def Balanced (depth : Nat) (cs : List Char) : Prop :=
  cs.count ')' = cs.count '(' + depth ∧ ∀ ds, ds <+: cs → ds.count ')' ≤ ds.count '(' + depth

/-- A part that is read as one reference when `rest` follows it. -/
def Part.IsReference : Part → List Char → Prop
  | .text _, _ => False
  | .ref scope name false, rest => IsPlain scope name rest
  | .ref scope name true, _ => IsBraced scope name
  | .expr source, _ => Balanced 0 source.toList

theorem span_eq_iff {p : Char → Bool} {cs xs ys : List Char} :
    (cs.takeWhile p = xs ∧ cs.dropWhile p = ys) ↔
      cs = xs ++ ys ∧ (∀ c ∈ xs, p c) ∧ ∀ c ∈ ys.head?, p c = false := by
  constructor
  · rintro ⟨rfl, rfl⟩
    refine ⟨List.takeWhile_append_dropWhile.symm, ?_, ?_⟩
    · exact List.all_eq_true.mp List.all_takeWhile
    · intro c hc
      have h := List.head?_dropWhile_not p cs
      rw [Option.mem_def.mp hc] at h
      exact h
  · rintro ⟨rfl, hx, hy⟩
    rw [List.takeWhile_append_of_pos hx, List.dropWhile_append_of_pos hx]
    cases ys with
    | nil => simp
    | cons c ys => simp [hy c rfl]

theorem span_eq (p : Char → Bool) (cs : List Char) :
    cs = cs.takeWhile p ++ cs.dropWhile p ∧ (∀ c ∈ cs.takeWhile p, p c) ∧
      ∀ c ∈ (cs.dropWhile p).head?, p c = false :=
  span_eq_iff.mp ⟨rfl, rfl⟩

theorem span_ne_iff {c : Char} {cs xs ys : List Char} :
    (cs.takeWhile (· ≠ c) = xs ∧ cs.dropWhile (· ≠ c) = ys) ↔
      cs = xs ++ ys ∧ c ∉ xs ∧ ∀ d ∈ ys.head?, d = c := by
  have hx : (∀ d ∈ xs, decide (d ≠ c) = true) ↔ c ∉ xs := by
    simp only [decide_eq_true_eq]
    exact ⟨fun h hc => h c hc rfl, fun h d hd hdc => h (hdc ▸ hd)⟩
  rw [span_eq_iff, hx]
  simp only [ne_eq, decide_not, Bool.not_eq_false', decide_eq_true_eq]

theorem span_ne (c : Char) (cs : List Char) :
    cs = cs.takeWhile (· ≠ c) ++ cs.dropWhile (· ≠ c) ∧ c ∉ cs.takeWhile (· ≠ c) ∧
      ∀ d ∈ (cs.dropWhile (· ≠ c)).head?, d = c :=
  span_ne_iff.mp ⟨rfl, rfl⟩

theorem span_ne_append_cons {c : Char} {xs : List Char} (h : c ∉ xs) (ys : List Char) :
    (xs ++ c :: ys).takeWhile (· ≠ c) = xs ∧ (xs ++ c :: ys).dropWhile (· ≠ c) = c :: ys := by
  refine span_ne_iff.mpr ⟨rfl, h, fun d hd => ?_⟩
  cases hd
  rfl

theorem enclosed_eq_enclosedBy (depth : Nat) (cs : List Char) :
    enclosed depth cs = enclosedBy '(' ')' depth cs := by
  fun_induction enclosed depth cs with
  | case1 depth => simp [enclosedBy]
  | case2 cs => simp [enclosedBy]
  | case3 depth cs ih | case4 depth cs ih => simp [enclosedBy, ih]
  | case5 depth c cs h0 hs ho ih =>
    have hc : c ≠ ')' := by
      rintro rfl
      cases depth with
      | zero => exact h0 rfl rfl
      | succ depth => exact hs depth rfl rfl
    have ho : c ≠ '(' := ho
    simp [enclosedBy, hc, ho, ih]

/-- What is enclosed is balanced and stands before the parenthesis that closes it. -/
theorem enclosed_eq_some_iff {depth : Nat} {cs source rest : List Char} :
    enclosed depth cs = some (source, rest) ↔
      cs = source ++ ')' :: rest ∧ Balanced depth source := by
  rw [enclosed_eq_enclosedBy]
  exact enclosedBy_eq_some_iff (by decide)

theorem isName_ofList {cs : List Char} :
    IsName (String.ofList cs) ↔ cs ≠ [] ∧ ∀ c ∈ cs, isWord c := by
  simp [IsName]

theorem qualified_eq_some_iff {cs name rest : List Char} :
    qualified cs = some (name, rest) ↔ cs = ':' :: (name ++ rest) ∧ name ≠ [] ∧
      (∀ c ∈ name, isWord c) ∧ ∀ c ∈ rest.head?, isWord c = false := by
  constructor
  · intro h
    unfold qualified at h
    split at h
    · next ds =>
      split at h
      · cases h
      · next hne =>
        cases h
        obtain ⟨hds, hword, hend⟩ := span_eq isWord ds
        rw [List.isEmpty_iff] at hne
        exact ⟨congrArg (':' :: ·) hds, hne, hword, hend⟩
    · cases h
  · rintro ⟨rfl, hne, hword, hend⟩
    obtain ⟨ht, hd⟩ := span_eq_iff.mpr ⟨rfl, hword, hend⟩
    simp [qualified, ht, hd, hne]

theorem qualified_eq_none_iff {cs : List Char} :
    qualified cs = none ↔ ∀ c ds, cs = ':' :: c :: ds → isWord c = false := by
  constructor
  · rintro h c ds rfl
    cases hc : isWord c with
    | false => rfl
    | true => simp [qualified, hc] at h
  · intro h
    match cs with
    | [] => rfl
    | [c] => by_cases hc : c = ':' <;> simp [qualified, hc]
    | c :: d :: ds =>
      by_cases hc : c = ':'
      · subst hc
        simp [qualified, h d ds rfl]
      · simp [qualified, hc]

theorem isPlain_of_plainName {cs rest : List Char} {p : Part}
    (h : plainName cs = some (p, rest)) :
    ∃ scope name, p = .ref scope name false ∧ cs = fullName scope name ++ rest ∧
      IsPlain scope name rest := by
  obtain ⟨hcs, hword, hend⟩ := span_eq isWord cs
  unfold plainName at h
  split at h
  · cases h
  · next hne =>
    rw [List.isEmpty_iff] at hne
    have hfirst := isName_ofList.mpr ⟨hne, hword⟩
    cases hq : qualified (cs.dropWhile isWord) with
    | some q =>
      obtain ⟨name, tail⟩ := q
      simp only [hq] at h
      cases h
      obtain ⟨htail, hname, hwords, hrest⟩ := qualified_eq_some_iff.mp hq
      refine ⟨_, _, rfl, ?_, ?_⟩
      · rw [fullName, String.toList_ofList, String.toList_ofList]
        rw [htail] at hcs
        simpa using hcs
      · refine ⟨?_, isName_ofList.mpr ⟨hname, hwords⟩, hrest, ?_⟩
        · intro s hs
          cases hs
          exact hfirst
        · intro hs
          cases hs
    | none =>
      simp only [hq] at h
      cases h
      refine ⟨none, _, rfl, ?_, ?_⟩
      · rw [fullName, String.toList_ofList]
        exact hcs
      · refine ⟨?_, hfirst, hend, fun _ => qualified_eq_none_iff.mp hq⟩
        intro s hs
        cases hs

theorem plainName_fullName {scope : Option String} {name : String} {rest : List Char}
    (h : IsPlain scope name rest) :
    plainName (fullName scope name ++ rest) = some (.ref scope name false, rest) := by
  have hne : name.toList ≠ [] := by simpa using h.name_isName.1
  cases scope with
  | none =>
    obtain ⟨ht, hd⟩ := span_eq_iff.mpr ⟨rfl, h.name_isName.2, h.not_word⟩
    have hq := qualified_eq_none_iff.mpr (h.not_scope rfl)
    simp [plainName, fullName, ht, hd, hq, hne]
  | some s =>
    obtain ⟨hs, hword⟩ := h.scope_isName s rfl
    have hne' : s.toList ≠ [] := by simpa using hs
    have hend : ∀ c ∈ (':' :: (name.toList ++ rest)).head?, isWord c = false := by
      intro c hc
      cases hc
      decide
    obtain ⟨ht, hd⟩ := span_eq_iff.mpr ⟨rfl, hword, hend⟩
    have hq := qualified_eq_some_iff.mpr ⟨rfl, hne, h.name_isName.2, h.not_word⟩
    simp [plainName, fullName, ht, hd, hq, hne']

theorem isBraced_of_bracedName {body : List Char} (h : '}' ∉ body) :
    ∃ scope name, bracedName body = .ref scope name true ∧ body = fullName scope name ∧
      IsBraced scope name := by
  obtain ⟨hbody, hscope, hend⟩ := span_ne ':' body
  unfold bracedName
  split
  · next c scope d name ht hd =>
    rw [ht] at hscope
    rw [hd] at hend
    rw [ht, hd, hend d rfl] at hbody
    have hfull : body = fullName (some (String.ofList (c :: scope))) (String.ofList name) := by
      rw [fullName, String.toList_ofList, String.toList_ofList]
      exact hbody
    refine ⟨_, _, rfl, hfull, hfull ▸ h, ?_, ?_⟩
    · intro s hs
      cases hs
      exact ⟨by simp, by rwa [String.toList_ofList]⟩
    · intro hs
      cases hs
  · next hno =>
    have hfull : body = fullName none (String.ofList body) := by
      rw [fullName, String.toList_ofList]
    refine ⟨_, _, rfl, hfull, hfull ▸ h, ?_, ?_⟩
    · intro s hs
      cases hs
    · intro _ hc
      rw [String.toList_ofList] at hc ⊢
      cases hd : body.dropWhile (· ≠ ':') with
      | nil =>
        rw [hd, List.append_nil] at hbody
        rw [hbody] at hc
        exact absurd hc hscope
      | cons d name =>
        cases ht : body.takeWhile (· ≠ ':') with
        | nil =>
          rw [hd] at hend
          rw [hbody, ht, hd, hend d rfl]
          rfl
        | cons c scope => exact (hno c scope d name ht hd).elim

theorem bracedName_fullName {scope : Option String} {name : String} (h : IsBraced scope name) :
    bracedName (fullName scope name) = .ref scope name true := by
  cases scope with
  | none =>
    unfold bracedName
    split
    · next c scope d rest ht hd =>
      obtain ⟨hname, hscope, hend⟩ := span_ne_iff.mp ⟨ht, hd⟩
      rw [hend d rfl] at hname
      have hc := h.no_scope rfl (by rw [fullName] at hname; simp [hname])
      rw [fullName] at hname
      rw [hname] at hc
      cases hc
      exact absurd List.mem_cons_self hscope
    · rw [fullName, String.ofList_toList]
  | some s =>
    obtain ⟨hs, hcolon⟩ := h.scope_nonempty s rfl
    obtain ⟨ht, hd⟩ := span_ne_append_cons hcolon name.toList
    unfold bracedName
    rw [fullName, ht, hd]
    cases hs' : s.toList with
    | nil => exact absurd (String.toList_eq_nil_iff.mp hs') hs
    | cons c cs =>
      change Part.ref (some (String.ofList (c :: cs))) (String.ofList name.toList) true = _
      rw [← hs', String.ofList_toList, String.ofList_toList]

theorem isReference_of_reference {cs rest : List Char} {p : Part}
    (h : reference cs = some (p, rest)) : '$' :: cs = p.spelling ++ rest ∧ p.IsReference rest := by
  unfold reference at h
  split at h
  · next cs =>
    obtain ⟨hcs, hbody, hend⟩ := span_ne '}' cs
    split at h
    · cases h
    · next d tail hd =>
      cases h
      obtain ⟨scope, name, hb, hfull, hbraced⟩ := isBraced_of_bracedName hbody
      rw [hd] at hend
      rw [hd, hend d rfl, hfull] at hcs
      rw [hb, hcs]
      exact ⟨by simp [Part.spelling], hbraced⟩
  · next cs =>
    obtain ⟨⟨source, tail⟩, hr, he⟩ := Option.map_eq_some_iff.mp h
    cases he
    obtain ⟨rfl, hb⟩ := enclosed_eq_some_iff.mp hr
    refine ⟨by simp [Part.spelling], ?_⟩
    rwa [Part.IsReference, String.toList_ofList]
  · obtain ⟨scope, name, rfl, rfl, hplain⟩ := isPlain_of_plainName h
    exact ⟨rfl, hplain⟩

theorem IsName.head_isWord {name : String} (h : IsName name) (rest : List Char) :
    ∀ c ∈ (name.toList ++ rest).head?, isWord c := by
  obtain ⟨hne, hword⟩ := h
  cases hn : name.toList with
  | nil => exact absurd (String.toList_eq_nil_iff.mp hn) hne
  | cons d ds =>
    intro c hc
    cases hc
    exact hword d (hn ▸ List.mem_cons_self)

theorem IsPlain.head_isWord {scope : Option String} {name : String} {rest : List Char}
    (h : IsPlain scope name rest) : ∀ c ∈ (fullName scope name ++ rest).head?, isWord c := by
  cases scope with
  | none => exact h.name_isName.head_isWord rest
  | some s =>
    rw [fullName, List.append_assoc]
    exact (h.scope_isName s rfl).head_isWord _

theorem reference_eq_plainName {cs : List Char} (h : ∀ c ∈ cs.head?, isWord c) :
    reference cs = plainName cs := by
  unfold reference
  split
  · exact absurd (h '{' rfl) (by decide)
  · exact absurd (h '(' rfl) (by decide)
  · rfl

theorem reference_of_isReference {cs rest : List Char} {p : Part}
    (hcs : '$' :: cs = p.spelling ++ rest) (h : p.IsReference rest) :
    reference cs = some (p, rest) := by
  cases p with
  | text t => exact h.elim
  | ref scope name braced =>
    cases braced with
    | false =>
      obtain rfl : cs = fullName scope name ++ rest := (List.cons.inj hcs).2
      rw [reference_eq_plainName (IsPlain.head_isWord h), plainName_fullName h]
    | true =>
      obtain rfl : cs = '{' :: (fullName scope name ++ '}' :: rest) := by
        simpa [Part.spelling] using hcs
      obtain ⟨ht, hd⟩ := span_ne_append_cons h.closed rest
      simp only [reference, ht, hd, bracedName_fullName h]
  | expr source =>
    obtain rfl : cs = '(' :: (source.toList ++ ')' :: rest) := by
      simpa [Part.spelling] using hcs
    have he : enclosed 0 (source.toList ++ ')' :: rest) = some (source.toList, rest) :=
      enclosed_eq_some_iff.mpr ⟨rfl, h⟩
    simp [reference, he]

theorem reference_eq_some_iff {cs rest : List Char} {p : Part} :
    reference cs = some (p, rest) ↔ '$' :: cs = p.spelling ++ rest ∧ p.IsReference rest :=
  ⟨isReference_of_reference, fun h => reference_of_isReference h.1 h.2⟩

end Interlingua.Template
