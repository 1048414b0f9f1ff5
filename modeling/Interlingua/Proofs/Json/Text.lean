import Interlingua.Json.Printer
import Interlingua.Json.Text

namespace Interlingua.Json

theorem hexValue_hexDigit (n : Nat) : hexValue (hexDigit n) = some (n % 16) := by
  have h : ∀ d < 16, hexValue (Nat.digitChar d) = some d := by decide
  exact h (n % 16) (Nat.mod_lt n (by decide))

theorem codeUnit_of_lt {n : Nat} (h : n < 0xD800) :
    codeUnit none n = some (.inl (Char.ofNat n)) := by
  have hhigh : isHighSurrogate n = false := by
    simp only [isHighSurrogate, Bool.and_eq_false_iff, decide_eq_false_iff_not]
    omega
  have hlow : isLowSurrogate n = false := by
    simp only [isLowSurrogate, Bool.and_eq_false_iff, decide_eq_false_iff_not]
    omega
  simp only [codeUnit, hhigh, hlow]
  rfl

theorem stringEnd_escape (c : Char) (done cs : List Char) :
    stringEnd codeUnit .outside done (escape c ++ cs) =
      stringEnd codeUnit .outside (c :: done) cs := by
  fun_cases escape c with
  | case8 c hq hb hn hr ht hbs hff hc =>
    have hzero : hexValue '0' = some 0 := rfl
    have hvalue : 16 * (c.toNat / 16 % 16) + c.toNat % 16 = c.toNat := by omega
    have hunit := codeUnit_of_lt (n := c.toNat) (by omega)
    rw [Char.ofNat_toNat] at hunit
    simp [stringEnd, hzero, hexValue_hexDigit, hvalue, hunit]
  | case9 c hq hb hn hr ht hbs hff hc =>
    have hq : c ≠ '"' := hq
    have hb : c ≠ '\\' := hb
    simp [stringEnd, hq, hb, hc]
  | _ => simp [stringEnd, unescape]

theorem stringEnd_flatMap_escape (cs done rest : List Char) :
    stringEnd codeUnit .outside done (cs.flatMap escape ++ '"' :: rest) =
      some (String.ofList (done.reverse ++ cs), rest) := by
  induction cs generalizing done with
  | nil => simp [stringEnd]
  | cons c cs ih =>
    rw [List.flatMap_cons, List.append_assoc, stringEnd_escape, ih, List.reverse_cons,
      List.append_assoc, List.singleton_append]

theorem quoted_putString (s : String) (rest : List Char) :
    quoted codeUnit (putString s rest) = some (s, rest) := by
  rw [putString, quoted, stringEnd_flatMap_escape, List.reverse_nil, List.nil_append,
    String.ofList_toList]

/-- What may follow a value: nothing, a comma or a closing character. -/
def Delimited : List Char → Prop
  | [] => True
  | c :: _ => c = ',' ∨ c = ']' ∨ c = '}'

theorem head?_toDigits {n : Nat} (h : 0 < n) : (Nat.toDigits 10 n).head? ≠ some '0' := by
  induction n using Nat.strongRecOn with
  | ind n ih =>
    rw [Nat.toDigits_eq_if (by decide)]
    split
    · next hlt =>
      have hone : ∀ d < 10, 0 < d → Nat.digitChar d ≠ '0' := by decide
      simpa using hone n hlt h
    · rw [List.head?_append, Option.or_of_isSome (by simp [Nat.toDigits_ne_nil])]
      exact ih (n / 10) (by omega) (by omega)

theorem digits_append {ds rest : List Char} (hne : ds ≠ []) (hds : ∀ d ∈ ds, d.isDigit)
    (hrest : Delimited rest) : digits (ds ++ rest) = some (ds, rest) := by
  have hstop : rest.takeWhile Char.isDigit = [] ∧ rest.dropWhile Char.isDigit = rest := by
    match rest, hrest with
    | [], _ => exact ⟨rfl, rfl⟩
    | _ :: _, .inl rfl | _ :: _, .inr (.inl rfl) | _ :: _, .inr (.inr rfl) => exact ⟨rfl, rfl⟩
  have htake : (ds ++ rest).takeWhile Char.isDigit = ds := by
    rw [List.takeWhile_append_of_pos hds, hstop.1, List.append_nil]
  have hdrop : (ds ++ rest).dropWhile Char.isDigit = rest := by
    rw [List.dropWhile_append_of_pos hds, hstop.2]
  rw [digits, htake, hdrop, if_neg (by simpa using hne)]

theorem whole_toDigits (n : Nat) {rest : List Char} (h : Delimited rest) :
    whole (Nat.toDigits 10 n ++ rest) = some (Nat.toDigits 10 n, rest) := by
  have hd := digits_append Nat.toDigits_ne_nil
    (fun d hd => Nat.isDigit_of_mem_toDigits (n := n) (b := 10) (by decide) (by decide) hd) h
  rw [whole, hd]
  split
  · next first second ds tail heq =>
    cases n with
    | zero => cases heq
    | succ n =>
      have hhead := head?_toDigits (n := n + 1) (by omega)
      rw [(Prod.mk.inj (Option.some.inj heq)).1] at hhead
      exact absurd rfl hhead
  · rfl

theorem unsigned_toDigits (n : Nat) {rest : List Char} (h : Delimited rest) :
    unsigned [] (Nat.toDigits 10 n ++ rest) = some (natural n, rest) := by
  have hmarks : fraction rest = some ([], rest) ∧ exponent rest = some ([], rest) := by
    match rest, h with
    | [], _ => exact ⟨rfl, rfl⟩
    | _ :: _, .inl rfl | _ :: _, .inr (.inl rfl) | _ :: _, .inr (.inr rfl) => exact ⟨rfl, rfl⟩
  simp [unsigned, whole_toDigits n h, hmarks, Nat.ofDigitChars_ten_toDigits]

section

variable (bound : Nat)

mutual

/-- Every number in the value is written with digits alone and lies below `bound`. -/
def NumbersBelow : Json → Prop
  | natural n => n < bound
  | number _ => False
  | array items => ItemsBelow items
  | object members => MembersBelow members
  | _ => True
termination_by structural v => v

def ItemsBelow : List Json → Prop
  | [] => True
  | v :: vs => v.NumbersBelow ∧ ItemsBelow vs
termination_by structural vs => vs

def MemberBelow : String × Json → Prop
  | (_, v) => v.NumbersBelow
termination_by structural m => m

def MembersBelow : List (String × Json) → Prop
  | [] => True
  | m :: ms => MemberBelow m ∧ MembersBelow ms
termination_by structural ms => ms

end

end

section

variable {α : Type} {bound : Nat} {g : α → Json}

theorem numbersBelow_ofOption (h : ∀ a, (g a).NumbersBelow bound) (o : Option α) :
    (ofOption g o).NumbersBelow bound := by
  cases o with
  | none => trivial
  | some a => exact h a

@[simp]
theorem numbersBelow_ofOption_string (o : Option String) :
    (ofOption string o).NumbersBelow bound := by
  cases o <;> trivial

theorem itemsBelow_map (h : ∀ a, (g a).NumbersBelow bound) (as : List α) :
    ItemsBelow bound (as.map g) := by
  induction as with
  | nil => trivial
  | cons a as ih => exact ⟨h a, ih⟩

end

mutual

theorem inRange_of_numbersBelow (v : Json) (h : v.NumbersBelow Text.doubleBound) :
    v.inRange = true := by
  cases v with
  | null | bool | string => rfl
  | natural n =>
    rw [NumbersBelow] at h
    rw [inRange, decide_eq_true h]
  | number _ => exact h.elim
  | array items => exact itemsInRange_of_itemsBelow items h
  | object members => exact membersInRange_of_membersBelow members h
termination_by structural v

theorem itemsInRange_of_itemsBelow (vs : List Json) (h : ItemsBelow Text.doubleBound vs) :
    itemsInRange vs = true := by
  cases vs with
  | nil => rfl
  | cons v vs =>
    rw [itemsInRange, inRange_of_numbersBelow v h.1, itemsInRange_of_itemsBelow vs h.2]
    rfl
termination_by structural vs

theorem memberInRange_of_memberBelow (m : String × Json) (h : MemberBelow Text.doubleBound m) :
    memberInRange m = true := by
  obtain ⟨key, v⟩ := m
  exact inRange_of_numbersBelow v h
termination_by structural m

theorem membersInRange_of_membersBelow (ms : List (String × Json))
    (h : MembersBelow Text.doubleBound ms) : membersInRange ms = true := by
  cases ms with
  | nil => rfl
  | cons m ms =>
    rw [membersInRange, memberInRange_of_memberBelow m h.1, membersInRange_of_membersBelow ms h.2]
    rfl
termination_by structural ms

end

/-- An item starts with neither a blank nor a closing character. -/
def StartsItem : List Char → Prop
  | [] => False
  | c :: _ => isBlank c = false ∧ c ≠ ']' ∧ c ≠ '}'

theorem skipBlanks_of_startsItem {cs : List Char} (h : StartsItem cs) : skipBlanks cs = cs := by
  cases cs with
  | nil => rfl
  | cons c cs => rw [skipBlanks, List.dropWhile_cons_of_neg (by simp [h.1])]

variable {α : Type}

/-- The reader takes what is written for `x` and leaves what follows. -/
structure TakesBack (item : Reader α) (write : α → List Char → List Char) (x : α) : Prop where
  read : ∀ rest, Delimited rest → item (write x rest) = some (x, rest)
  starts : ∀ rest, StartsItem (write x rest)
  grows : ∀ rest, rest.length ≤ (write x rest).length

def putRest (close : Char) (write : α → List Char → List Char) : List α → List Char → List Char
  | [], rest => close :: rest
  | x :: xs, rest => ',' :: write x (putRest close write xs rest)

theorem putItems_eq (vs : List Json) (rest : List Char) :
    putItems vs rest = putRest ']' put vs rest := by
  induction vs with
  | nil => rfl
  | cons v vs ih => rw [putItems, putRest, ih]

theorem putMembers_eq (ms : List (String × Json)) (rest : List Char) :
    putMembers ms rest = putRest '}' putMember ms rest := by
  induction ms with
  | nil => rfl
  | cons m ms ih => rw [putMembers, putRest, ih]

section Sequences

variable {close : Char} {item : Reader α} {write : α → List Char → List Char} {x : α} {xs : List α}

theorem delimited_putRest (hclose : close = ']' ∨ close = '}')
    (write : α → List Char → List Char) (xs : List α) (rest : List Char) :
    Delimited (putRest close write xs rest) := by
  cases xs with
  | nil => exact .inr hclose
  | cons x xs => exact .inl rfl

theorem length_putRest (close : Char) (h : ∀ y ∈ xs, TakesBack item write y) (rest : List Char) :
    xs.length + rest.length < (putRest close write xs rest).length := by
  induction xs with
  | nil => simp [putRest]
  | cons x xs ih =>
    have hx := (h x List.mem_cons_self).grows (putRest close write xs rest)
    have hxs := ih fun y hy => h y (List.mem_cons_of_mem x hy)
    simp only [putRest, List.length_cons]
    omega

theorem itemsUntil_putRest (hclose : close = ']' ∨ close = '}') (hx : TakesBack item write x)
    (hxs : ∀ y ∈ xs, TakesBack item write y) {fuel : Nat} (hfuel : xs.length < fuel)
    (rest : List Char) :
    itemsUntil close item fuel (write x (putRest close write xs rest)) =
      some (x :: xs, rest) := by
  induction xs generalizing x fuel with
  | nil =>
    obtain ⟨fuel, rfl⟩ : ∃ n, fuel = n + 1 := ⟨fuel - 1, by omega⟩
    have hread := hx.read _ (delimited_putRest hclose write [] rest)
    rw [itemsUntil, skipBlanks_of_startsItem (hx.starts _), hread]
    obtain rfl | rfl := hclose <;> rfl
  | cons y ys ih =>
    obtain ⟨fuel, rfl⟩ : ∃ n, fuel = n + 1 := ⟨fuel - 1, by omega⟩
    have hread := hx.read _ (delimited_putRest hclose write (y :: ys) rest)
    have hrest := ih (hxs y List.mem_cons_self) (fun z hz => hxs z (List.mem_cons_of_mem y hz))
      (Nat.lt_of_succ_lt_succ hfuel)
    have hcomma (cs : List Char) : skipBlanks (',' :: cs) = ',' :: cs := rfl
    rw [itemsUntil, skipBlanks_of_startsItem (hx.starts _), hread]
    simp [putRest, hcomma, hrest]

theorem sequence_close (hclose : close = ']' ∨ close = '}') (rest : List Char) :
    sequence close item (close :: rest) = some ([], rest) := by
  obtain rfl | rfl := hclose <;> rfl

theorem sequence_putRest (hclose : close = ']' ∨ close = '}') (hx : TakesBack item write x)
    (hxs : ∀ y ∈ xs, TakesBack item write y) (rest : List Char) :
    sequence close item (write x (putRest close write xs rest)) = some (x :: xs, rest) := by
  have hstarts := hx.starts (putRest close write xs rest)
  -- Every item behind the first takes at least its comma, so the length of the text is fuel enough.
  have hfuel : xs.length < (write x (putRest close write xs rest)).length := by
    have := hx.grows (putRest close write xs rest)
    have := length_putRest close hxs rest
    omega
  have hitems := itemsUntil_putRest hclose hx hxs hfuel rest
  rw [sequence, skipBlanks_of_startsItem hstarts]
  generalize write x (putRest close write xs rest) = cs at *
  cases cs with
  | nil => exact hstarts.elim
  | cons c cs =>
    have hc : c ≠ close := by
      obtain rfl | rfl := hclose
      · exact hstarts.2.1
      · exact hstarts.2.2
    simp only [hc, if_false, hitems]

end Sequences

theorem value_eq_scalar {c : Char} (h : c ≠ '[' ∧ c ≠ '{') (units : Units) (d : Nat)
    (cs : List Char) : value units d (c :: cs) = scalar units (c :: cs) := by
  cases d with
  | zero => rfl
  | succ d =>
    unfold value
    split
    · next heq => exact absurd (List.cons.inj heq).1 h.1
    · next heq => exact absurd (List.cons.inj heq).1 h.2
    · rfl

theorem scalar_of_isDigit {c : Char} (h : c.isDigit) (units : Units) (cs : List Char) :
    scalar units (c :: cs) = unsigned [] (c :: cs) := by
  unfold scalar
  split
  case h_6 => rfl
  all_goals
    next heq =>
      obtain ⟨rfl, -⟩ := List.cons.inj heq
      cases h

theorem takesBack_natural (d n : Nat) : TakesBack (value codeUnit d) put (natural n) := by
  obtain ⟨c, cs, hcs⟩ := List.exists_cons_of_ne_nil (Nat.toDigits_ne_nil (n := n) (b := 10))
  have hc : c.isDigit := Nat.isDigit_of_mem_toDigits (n := n) (b := 10) (by decide) (by decide)
    (by rw [hcs]; exact List.mem_cons_self)
  have hne {k : Char} (hk : k.isDigit = false) : c ≠ k := fun h => by rw [h, hk] at hc; cases hc
  refine ⟨fun rest hrest => ?_, fun rest => ?_, fun rest => by simp [put]⟩
  · have hu := unsigned_toDigits n hrest
    rw [put]
    rw [hcs, List.cons_append] at hu ⊢
    rw [value_eq_scalar ⟨hne rfl, hne rfl⟩, scalar_of_isDigit hc, hu]
  · rw [put, hcs]
    have hblank : isBlank c = false := by
      simp [isBlank, hne (k := ' ') rfl, hne (k := '\t') rfl, hne (k := '\n') rfl,
        hne (k := '\r') rfl]
    exact ⟨hblank, hne rfl, hne rfl⟩

theorem takesBack_string (d : Nat) (s : String) : TakesBack (value codeUnit d) put (string s) := by
  refine ⟨fun rest _ => ?_, fun rest => ⟨rfl, by decide, by decide⟩, fun rest => ?_⟩
  · have hq := quoted_putString s rest
    rw [put]
    rw [putString, quoted] at hq
    rw [putString, value_eq_scalar (by decide), scalar, hq]
    rfl
  · simp [put, putString]
    omega

theorem takesBack_word {d : Nat} {v : Json} (c : Char) (cs : List Char)
    (hv : ∀ rest, v.put rest = c :: (cs ++ rest)) (hopen : c ≠ '[' ∧ c ≠ '{')
    (hstart : isBlank c = false ∧ c ≠ ']' ∧ c ≠ '}')
    (hread : ∀ rest, scalar codeUnit (c :: (cs ++ rest)) = some (v, rest)) :
    TakesBack (value codeUnit d) put v := by
  refine ⟨fun rest _ => ?_, fun rest => ?_, fun rest => ?_⟩
  · rw [hv, value_eq_scalar hopen, hread]
  · rw [hv]
    exact hstart
  · simp [hv]
    omega

theorem member_putMember {d : Nat} {key : String} {v : Json}
    (hv : TakesBack (value codeUnit d) put v) :
    TakesBack (member codeUnit fun _ => value codeUnit d) putMember (key, v) := by
  refine ⟨fun rest hrest => ?_, fun rest => ⟨rfl, by decide, by decide⟩, fun rest => ?_⟩
  · have hcolon : skipBlanks (':' :: v.put rest) = ':' :: v.put rest := rfl
    simp [putMember, member, quoted_putString, hcolon, skipBlanks_of_startsItem (hv.starts rest),
      hv.read rest hrest]
  · have := hv.grows rest
    simp [putMember, putString]
    omega

theorem takesBack_array {d : Nat} {items : List Json}
    (h : ∀ v ∈ items, TakesBack (value codeUnit d) put v) :
    TakesBack (value codeUnit (d + 1)) put (array items) := by
  refine ⟨fun rest _ => ?_, fun rest => ?_, fun rest => ?_⟩
  · cases items with
    | nil => rw [put, value, sequence_close (.inl rfl)]; rfl
    | cons v vs =>
      have hseq := sequence_putRest (.inl rfl) (h v List.mem_cons_self)
        (fun w hw => h w (List.mem_cons_of_mem v hw)) rest
      rw [put, putItems_eq, value, hseq]
      rfl
  · cases items <;> exact ⟨rfl, by decide, by decide⟩
  · cases items with
    | nil => simp [put]; omega
    | cons v vs =>
      have hv := (h v List.mem_cons_self).grows (putRest ']' put vs rest)
      have hvs := length_putRest ']' (fun w hw => h w (List.mem_cons_of_mem v hw)) rest
      rw [put, putItems_eq, List.length_cons]
      omega

theorem takesBack_object {d : Nat} {members : List (String × Json)}
    (h : ∀ m ∈ members, TakesBack (member codeUnit fun _ => value codeUnit d) putMember m) :
    TakesBack (value codeUnit (d + 1)) put (object members) := by
  refine ⟨fun rest _ => ?_, fun rest => ?_, fun rest => ?_⟩
  · cases members with
    | nil => rw [put, value, sequence_close (.inr rfl)]; rfl
    | cons m ms =>
      have hseq := sequence_putRest (.inr rfl) (h m List.mem_cons_self)
        (fun n hn => h n (List.mem_cons_of_mem m hn)) rest
      rw [put, putMembers_eq, value, hseq]
      rfl
  · cases members <;> exact ⟨rfl, by decide, by decide⟩
  · cases members with
    | nil => simp [put]; omega
    | cons m ms =>
      have hm := (h m List.mem_cons_self).grows (putRest '}' putMember ms rest)
      have hms := length_putRest '}' (fun n hn => h n (List.mem_cons_of_mem m hn)) rest
      rw [put, putMembers_eq, List.length_cons]
      omega

variable {bound : Nat}

mutual

theorem takesBack_put {d : Nat} (v : Json) (hd : v.depth ≤ d) (hn : v.NumbersBelow bound) :
    TakesBack (value codeUnit d) put v := by
  cases v with
  | null =>
    exact takesBack_word 'n' ['u', 'l', 'l'] (fun _ => rfl) (by decide) (by decide) fun _ => rfl
  | bool b =>
    cases b with
    | true =>
      exact takesBack_word 't' ['r', 'u', 'e'] (fun _ => rfl) (by decide) (by decide) fun _ => rfl
    | false =>
      exact takesBack_word 'f' ['a', 'l', 's', 'e'] (fun _ => rfl) (by decide) (by decide)
        fun _ => rfl
  | natural n => exact takesBack_natural d n
  | number _ => exact hn.elim
  | string s => exact takesBack_string d s
  | array items =>
    obtain ⟨d, rfl⟩ : ∃ n, d = n + 1 := ⟨d - 1, by rw [depth] at hd; omega⟩
    exact takesBack_array (takesBack_items items (Nat.le_of_succ_le_succ hd) hn)
  | object members =>
    obtain ⟨d, rfl⟩ : ∃ n, d = n + 1 := ⟨d - 1, by rw [depth] at hd; omega⟩
    exact takesBack_object (takesBack_members members (Nat.le_of_succ_le_succ hd) hn)
termination_by structural v

theorem takesBack_items {d : Nat} (vs : List Json) (hd : depthOfItems vs ≤ d)
    (hn : ItemsBelow bound vs) : ∀ v ∈ vs, TakesBack (value codeUnit d) put v := by
  cases vs with
  | nil => simp
  | cons v vs =>
    obtain ⟨hv, hvs⟩ := Nat.max_le.mp hd
    intro w hw
    cases hw with
    | head => exact takesBack_put v hv hn.1
    | tail _ hw => exact takesBack_items vs hvs hn.2 w hw
termination_by structural vs

theorem takesBack_member {d : Nat} (m : String × Json) (hd : depthOfMember m ≤ d)
    (hn : MemberBelow bound m) :
    TakesBack (member codeUnit fun _ => value codeUnit d) putMember m := by
  obtain ⟨key, v⟩ := m
  exact member_putMember (takesBack_put v hd hn)
termination_by structural m

theorem takesBack_members {d : Nat} (ms : List (String × Json)) (hd : depthOfMembers ms ≤ d)
    (hn : MembersBelow bound ms) :
    ∀ m ∈ ms, TakesBack (member codeUnit fun _ => value codeUnit d) putMember m := by
  cases ms with
  | nil => simp
  | cons m ms =>
    obtain ⟨hm, hms⟩ := Nat.max_le.mp hd
    intro w hw
    cases hw with
    | head => exact takesBack_member m hm hn.1
    | tail _ hw => exact takesBack_members ms hms hn.2 w hw
termination_by structural ms

end

/-- The text of a value that nests no deeper than the limit is read as that value. -/
theorem parse_print {limit : Nat} {v : Json} (hd : v.depth ≤ limit) (hn : v.NumbersBelow bound) :
    parse limit v.print = some v := by
  have h := takesBack_put v hd hn
  rw [parse, whole?, print, String.toList_ofList, skipBlanks_of_startsItem (h.starts []),
    h.read [] trivial]
  rfl

end Interlingua.Json
