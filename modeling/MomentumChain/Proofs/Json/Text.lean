import MomentumChain.Json.Reader
import Mathlib.Tactic.IntervalCases

/-!
# Reading the text of a value

A value is read back from its text, whatever follows the text (`Value.ReadsBack`).  Only a
number needs a condition on what follows, which must not continue it (`EndsNumber`).

No blank is written outside strings, so reading skips nothing.  The bound on the steps is twice
the length of the text.  A list takes one step to begin and one for each item, and each item has
a comma or the bracket before it.
-/

namespace MomentumChain

/-- Only zero is written with a zero in front. -/
theorem eq_zero_of_digits {base n : Nat} (hbase : 2 ≤ base) {ds : List Nat}
    (h : digits base n = 0 :: ds) : n = 0 := by
  fun_induction digits base n generalizing ds with
  | case1 n hn => exact (List.cons.inj h).1
  | case2 n hn ih =>
      cases hfirst : digits base (n / base) with
      | nil => exact absurd hfirst (digits_ne_nil base (n / base))
      | cons d rest =>
          rw [hfirst] at h
          have hquotient : n / base = 0 := ih (hfirst.trans (by rw [(List.cons.inj h).1]))
          have := (Nat.div_eq_zero_iff_lt (by omega)).mp hquotient
          omega

namespace Json

/-! ## Numbers -/

theorem isDigit_digit : ∀ d < 10, isDigit (Hex.digit d) = true := by decide

theorem ofDigit_digit : ∀ d < 10, (Hex.digit d).toNat - '0'.toNat = d := by decide

theorem eq_zero_of_digit : ∀ d < 10, Hex.digit d = '0' → d = 0 := by decide

theorem isDigit_of_mem_decimal {n : Nat} {c : Char} (h : c ∈ decimal n) : isDigit c = true := by
  obtain ⟨d, hd, rfl⟩ := List.mem_map.mp h
  exact isDigit_digit d (lt_of_mem_digits (by decide) hd)

theorem ofDecimal_decimal (n : Nat) : ofDecimal (decimal n) = n := by
  have hvalues : (decimal n).map (fun c => c.toNat - '0'.toNat) = digits 10 n := by
    rw [decimal, List.map_map]
    refine (List.map_congr_left fun d hd => ?_).trans (List.map_id _)
    exact ofDigit_digit d (lt_of_mem_digits (by decide) hd)
  rw [ofDecimal, hvalues, ofDigits_digits]

/-- A number starts with a digit, and with a zero only if there is no other digit. -/
theorem exists_decimal_cons (n : Nat) :
    ∃ c cs, decimal n = c :: cs ∧ isDigit c = true ∧ (c = '0' → cs = []) := by
  cases h : digits 10 n with
  | nil => exact absurd h (digits_ne_nil 10 n)
  | cons d ds =>
      have hmem : d ∈ digits 10 n := h ▸ List.mem_cons_self
      have hlt := lt_of_mem_digits (by decide) hmem
      refine ⟨_, _, by rw [decimal, h, List.map_cons], isDigit_digit d hlt, fun hzero => ?_⟩
      cases eq_zero_of_digit d hlt hzero
      cases eq_zero_of_digits (by decide) h
      rw [digits, if_pos (.inl (by decide))] at h
      rw [← (List.cons.inj h).2, List.map_nil]

/-- What may follow a number. -/
def EndsNumber (text : List Char) : Prop :=
  ∀ c ∈ text.head?, isDigit c = false ∧ c ≠ '.' ∧ c ≠ 'e' ∧ c ≠ 'E'

theorem EndsNumber.nil : EndsNumber [] := by
  intro c h
  cases h

theorem EndsNumber.cons {c : Char} (h : c = ',' ∨ c = ']' ∨ c = '}') (rest : List Char) :
    EndsNumber (c :: rest) := by
  rintro _ ⟨⟩
  rcases h with rfl | rfl | rfl <;> decide

theorem spanDigits_decimal (n : Nat) {rest : List Char} (h : EndsNumber rest) :
    spanDigits (decimal n ++ rest) = (decimal n, rest) := by
  have hdigits : ∀ c ∈ decimal n, isDigit c = true := fun _ => isDigit_of_mem_decimal
  have hrest : rest.takeWhile isDigit = [] ∧ rest.dropWhile isDigit = rest := by
    cases rest with
    | nil => exact ⟨rfl, rfl⟩
    | cons c rest =>
        have hc : ¬ isDigit c = true := by simp [(h c rfl).1]
        exact ⟨List.takeWhile_cons_of_neg hc, List.dropWhile_cons_of_neg hc⟩
  rw [spanDigits, List.takeWhile_append_of_pos hdigits, List.dropWhile_append_of_pos hdigits,
    hrest.1, hrest.2, List.append_nil]

theorem skipFraction_of_endsNumber {rest : List Char} (h : EndsNumber rest) :
    skipFraction rest = some (false, rest) := by
  unfold skipFraction
  split
  · exact absurd rfl (h '.' rfl).2.1
  · rfl

theorem skipExponent_of_endsNumber {rest : List Char} (h : EndsNumber rest) :
    skipExponent rest = some (false, rest) := by
  cases rest with
  | nil => rfl
  | cons c rest =>
      obtain ⟨_, _, hlower, hupper⟩ := h c rfl
      simp [skipExponent, hlower, hupper]

theorem readUnsigned_decimal (n : Nat) {rest : List Char} (h : EndsNumber rest) :
    readUnsigned (decimal n ++ rest) = some (.nat n, rest) := by
  obtain ⟨c, cs, hdecimal, _, hzero⟩ := exists_decimal_cons n
  have hvalue : ofDecimal (c :: cs) = n := hdecimal ▸ ofDecimal_decimal n
  rw [readUnsigned, spanDigits_decimal n h, hdecimal]
  split
  · rename_i heq
    cases heq
  · -- no other digit is written after a leading zero
    rename_i heq
    cases heq
    exact absurd (hzero rfl) (List.cons_ne_nil _ _)
  · rename_i heq
    cases heq
    simp [skipFraction_of_endsNumber h, skipExponent_of_endsNumber h, hvalue]

/-! ## Strings -/

/-- The number of a control character is read from the four digits of its escape. -/
theorem readUnit_control (n : Nat) (h : n < 32) (rest : List Char) :
    readUnit ('0' :: '0' :: Hex.digit (n / 16) :: Hex.digit (n % 16) :: rest) = some (n, rest) := by
  interval_cases n <;> rfl

/-- The part of a string stands for a character. -/
def Part.StandsFor (part : Part) (c : Char) : Prop :=
  ∀ parts, joinParts (part :: parts) = (joinParts parts).map (c :: ·)

theorem Part.char_standsFor (c : Char) : (Part.char c).StandsFor c := fun _ => rfl

theorem Part.unit_standsFor {c : Char} (h : c.toNat < 32) : (Part.unit c.toNat).StandsFor c := by
  intro parts
  have hplain : c.toNat < 0xD800 := by omega
  have hjoin : joinParts (.unit c.toNat :: parts) =
      (joinParts parts).map (Char.ofNat c.toNat :: ·) := by
    rw [joinParts.eq_def]
    exact if_pos (.inl hplain)
  rw [hjoin, Char.ofNat_toNat]

/-- The text is read as one part, and reading goes on after it. -/
def ReadsPart (text : List Char) (part : Part) : Prop :=
  ∀ fuel rest, readParts (fuel + 1) (text ++ rest) = do
    let (parts, rest) ← readParts fuel rest
    pure (part :: parts, rest)

theorem readsPart_letter {letter c : Char} (h : unescape? letter = some c) :
    ReadsPart ['\\', letter] (.char c) := by
  intro fuel rest
  unfold unescape? at h
  split at h <;> cases h <;> rfl

theorem readsPart_control {n : Nat} (h : n < 32) :
    ReadsPart ['\\', 'u', '0', '0', Hex.digit (n / 16), Hex.digit (n % 16)] (.unit n) := by
  intro fuel rest
  show (readUnit ('0' :: '0' :: Hex.digit (n / 16) :: Hex.digit (n % 16) :: rest)).bind _ = _
  rw [readUnit_control n h]
  rfl

theorem readsPart_plain {c : Char} (hquote : c ≠ '"') (hslash : c ≠ '\\') (h : ¬ c.toNat < 32) :
    ReadsPart [c] (.char c) := by
  intro fuel rest
  simp [readParts, hquote, hslash, h]

/-- Every character is written so that it is read as a part that stands for it. -/
theorem exists_readsPart (c : Char) : ∃ part, part.StandsFor c ∧ ReadsPart (escape c) part := by
  have hchar : c = Char.ofNat c.toNat := (Char.ofNat_toNat c).symm
  fun_cases escape c with
  | case1 h => exact ⟨_, Part.char_standsFor c, readsPart_letter (by rw [h]; rfl)⟩
  | case2 _ h => exact ⟨_, Part.char_standsFor c, readsPart_letter (by rw [h]; rfl)⟩
  | case3 _ _ h => exact ⟨_, Part.char_standsFor c, readsPart_letter (by rw [hchar, h]; rfl)⟩
  | case4 _ _ _ h => exact ⟨_, Part.char_standsFor c, readsPart_letter (by rw [hchar, h]; rfl)⟩
  | case5 _ _ _ _ h => exact ⟨_, Part.char_standsFor c, readsPart_letter (by rw [h]; rfl)⟩
  | case6 _ _ _ _ _ h => exact ⟨_, Part.char_standsFor c, readsPart_letter (by rw [h]; rfl)⟩
  | case7 _ _ _ _ _ _ h => exact ⟨_, Part.char_standsFor c, readsPart_letter (by rw [h]; rfl)⟩
  | case8 _ _ _ _ _ _ _ h => exact ⟨_, Part.unit_standsFor h, readsPart_control h⟩
  | case9 hquote hslash _ _ _ _ _ h =>
      exact ⟨_, Part.char_standsFor c, readsPart_plain hquote hslash h⟩

/-- The inside of a string is read up to the quote after it.  A bound of one more step than it
has characters is enough, since an escape is read in one step. -/
theorem readParts_inside (cs rest : List Char) {fuel : Nat} (h : cs.length < fuel) :
    ∃ parts, joinParts parts = some cs ∧
      readParts fuel (cs.flatMap escape ++ '"' :: rest) = some (parts, rest) := by
  induction cs generalizing fuel with
  | nil =>
      cases fuel with
      | zero => cases h
      | succ fuel => exact ⟨[], rfl, rfl⟩
  | cons c cs ih =>
      cases fuel with
      | zero => cases h
      | succ fuel =>
          obtain ⟨part, hpart, hread⟩ := exists_readsPart c
          obtain ⟨parts, hjoin, hparts⟩ := ih (Nat.lt_of_succ_lt_succ h)
          refine ⟨part :: parts, by rw [hpart, hjoin, Option.map_some], ?_⟩
          rw [List.flatMap_cons, List.append_assoc, hread, hparts]
          rfl

theorem escape_ne_nil (c : Char) : escape c ≠ [] := by
  fun_cases escape c <;> exact List.cons_ne_nil _ _

theorem length_le_length_escaped (cs : List Char) : cs.length ≤ (cs.flatMap escape).length := by
  induction cs with
  | nil => exact Nat.le_refl _
  | cons c cs ih =>
      have := List.length_pos_iff.mpr (escape_ne_nil c)
      rw [List.flatMap_cons, List.length_append, List.length_cons]
      omega

theorem readString_inside (text : Option String) (rest : List Char) :
    readString (writeInside text ++ '"' :: rest) = some (text, rest) := by
  cases text with
  | none => rfl
  | some s =>
      have hfuel : s.toList.length < (s.toList.flatMap escape ++ '"' :: rest).length := by
        have := length_le_length_escaped s.toList
        rw [List.length_append, List.length_cons]
        omega
      obtain ⟨parts, hjoin, hparts⟩ := readParts_inside s.toList rest hfuel
      rw [writeInside, readString, hparts]
      simp [hjoin]

/-! ## Blanks -/

/-- What a value cannot start with. -/
def Opens (c : Char) : Prop := c ∉ [' ', '\t', '\n', '\r', ']']

instance : DecidablePred Opens := fun _ => inferInstanceAs (Decidable (¬ _))

theorem opens_of_isDigit {c : Char} (h : isDigit c = true) : Opens c := by
  intro hmem
  simp only [List.mem_cons, List.not_mem_nil, or_false] at hmem
  rcases hmem with rfl | rfl | rfl | rfl | rfl <;> cases h

/-- What is no blank is not skipped. -/
theorem skipBlanks_cons {c : Char} (h : c ∉ [' ', '\t', '\n', '\r']) (rest : List Char) :
    skipBlanks (c :: rest) = c :: rest := by
  rw [skipBlanks, List.dropWhile_cons_of_neg]
  simpa [and_assoc] using h

theorem exists_write_cons (v : Value) : ∃ c cs, write v = c :: cs ∧ Opens c := by
  cases v with
  | null => exact ⟨_, _, rfl, by decide⟩
  | bool b => cases b <;> exact ⟨_, _, rfl, by decide⟩
  | nat n =>
      obtain ⟨c, cs, h, hdigit, _⟩ := exists_decimal_cons n
      exact ⟨c, cs, h, opens_of_isDigit hdigit⟩
  | number => exact ⟨_, _, rfl, by decide⟩
  | string text => exact ⟨_, _, rfl, by decide⟩
  | array items => cases items <;> exact ⟨_, _, rfl, by decide⟩
  | object members => cases members <;> exact ⟨_, _, rfl, by decide⟩

theorem skipBlanks_write (v : Value) (rest : List Char) :
    skipBlanks (write v ++ rest) = write v ++ rest := by
  obtain ⟨c, cs, h, hopens⟩ := exists_write_cons v
  rw [h, List.cons_append]
  exact skipBlanks_cons (fun hmem => hopens (List.mem_append_left [']'] hmem)) _

/-! ## Values -/

/-- The value is read back from its text, whatever follows.  The steps are bounded by twice the
length of the text. -/
def Value.ReadsBack (v : Value) : Prop :=
  ∀ fuel rest, 2 * (write v).length ≤ fuel → EndsNumber rest →
    readValue fuel (write v ++ rest) = some (v, rest)

theorem endsNumber_items (items : List Value) (rest : List Char) :
    EndsNumber (writeItems items ++ rest) := by
  cases items <;> exact .cons (by decide) _

theorem endsNumber_members (members : List (Option String × Value)) (rest : List Char) :
    EndsNumber (writeMembers members ++ rest) := by
  cases members <;> exact .cons (by decide) _

/-- Items are read back one by one.  The bound is strict, for the step that looks for an item
comes before the steps of the item. -/
theorem readItems_write {items : List Value} (hitems : ∀ v ∈ items, v.ReadsBack) {item : Value}
    (hitem : item.ReadsBack) {fuel : Nat} {rest : List Char}
    (hfuel : 2 * (write item ++ writeItems items).length < fuel) :
    readItems fuel (write item ++ (writeItems items ++ rest)) = some (item :: items, rest) := by
  induction items generalizing item fuel with
  | nil =>
      cases fuel with
      | zero => cases hfuel
      | succ fuel =>
          rw [List.length_append] at hfuel
          have hread : readValue fuel (write item ++ (writeItems [] ++ rest)) =
              some (item, ']' :: rest) := hitem _ _ (by omega) (endsNumber_items [] rest)
          rw [readItems, hread]
          rfl
  | cons next items ih =>
      cases fuel with
      | zero => cases hfuel
      | succ fuel =>
          rw [List.length_append, writeItems, List.length_cons] at hfuel
          have hread : readValue fuel (write item ++ (writeItems (next :: items) ++ rest)) =
              some (item, ',' :: (write next ++ writeItems items ++ rest)) :=
            hitem _ _ (by omega) (endsNumber_items (next :: items) rest)
          have hrest : readItems fuel (write next ++ (writeItems items ++ rest)) =
              some (next :: items, rest) :=
            ih (fun v hv => hitems v (List.mem_cons_of_mem _ hv)) (hitems next List.mem_cons_self)
              (by omega)
          rw [readItems, hread]
          show (readItems fuel (skipBlanks (write next ++ writeItems items ++ rest))).bind _ = _
          rw [List.append_assoc, skipBlanks_write, hrest]
          rfl

/-- After the name of a member its value is read. -/
theorem readMembers_name (name : Option String) (fuel : Nat) (text : List Char) :
    readMembers (fuel + 1) (writeString name ++ ':' :: text) = (do
      let (value, rest) ← readValue fuel (skipBlanks text)
      match skipBlanks rest with
      | '}' :: rest => pure ([(name, value)], rest)
      | ',' :: rest => do
          let (members, rest) ← readMembers fuel (skipBlanks rest)
          pure ((name, value) :: members, rest)
      | _ => none) := by
  have htext : writeString name ++ ':' :: text =
      '"' :: (writeInside name ++ '"' :: ':' :: text) := by
    simp [writeString]
  rw [htext, readMembers, readString_inside]
  rfl

/-- Members are read back one by one, under the same bound without the names. -/
theorem readMembers_write {members : List (Option String × Value)}
    (hmembers : ∀ member ∈ members, member.2.ReadsBack) {name : Option String} {v : Value}
    (hv : v.ReadsBack) {fuel : Nat} {rest : List Char}
    (hfuel : 2 * (write v ++ writeMembers members).length < fuel) :
    readMembers fuel (writeString name ++ ':' :: (write v ++ (writeMembers members ++ rest))) =
      some ((name, v) :: members, rest) := by
  induction members generalizing name v fuel with
  | nil =>
      cases fuel with
      | zero => cases hfuel
      | succ fuel =>
          rw [List.length_append] at hfuel
          have hread : readValue fuel (write v ++ (writeMembers [] ++ rest)) =
              some (v, '}' :: rest) := hv _ _ (by omega) (endsNumber_members [] rest)
          rw [readMembers_name, skipBlanks_write, hread]
          rfl
  | cons next members ih =>
      obtain ⟨nextName, next⟩ := next
      cases fuel with
      | zero => cases hfuel
      | succ fuel =>
          rw [List.length_append, writeMembers, List.length_cons, List.length_append,
            List.length_cons] at hfuel
          let more := writeString nextName ++ ':' :: (write next ++ (writeMembers members ++ rest))
          have hmore : writeMembers ((nextName, next) :: members) ++ rest = ',' :: more := by
            simp [writeMembers, more]
          have hread : readValue fuel (write v ++ ',' :: more) = some (v, ',' :: more) :=
            hv _ _ (by omega) (.cons (by decide) more)
          have hnext : next.ReadsBack := hmembers (nextName, next) List.mem_cons_self
          have hrest : readMembers fuel more = some ((nextName, next) :: members, rest) :=
            ih (fun member hm => hmembers member (List.mem_cons_of_mem _ hm)) hnext (by omega)
          rw [hmore, readMembers_name, skipBlanks_write, hread]
          show (readMembers fuel (skipBlanks more)).bind _ = _
          rw [show skipBlanks more = more from rfl, hrest]
          rfl

namespace Value

/-- A text is not empty, so there is a step to begin with. -/
theorem readsBack_of_step {v : Value}
    (h : ∀ fuel rest, 2 * (write v).length ≤ fuel + 1 → EndsNumber rest →
      readValue (fuel + 1) (write v ++ rest) = some (v, rest)) : v.ReadsBack := by
  intro fuel rest hfuel hrest
  cases fuel with
  | zero =>
      obtain ⟨c, cs, hwrite, _⟩ := exists_write_cons v
      rw [hwrite, List.length_cons] at hfuel
      omega
  | succ fuel => exact h fuel rest hfuel hrest

theorem null_readsBack : null.ReadsBack := readsBack_of_step fun _ _ _ _ => rfl

theorem bool_readsBack (b : Bool) : (bool b).ReadsBack :=
  readsBack_of_step fun _ _ _ _ => by cases b <;> rfl

theorem readValue_of_isDigit {c : Char} (h : isDigit c = true) (fuel : Nat) (text : List Char) :
    readValue (fuel + 1) (c :: text) = readUnsigned (c :: text) := by
  have hne : ∀ {d}, isDigit d = false → c ≠ d := by
    rintro d hd rfl
    exact absurd h (by simp [hd])
  have hquote : c ≠ '"' := hne rfl
  have hlist : c ≠ '[' := hne rfl
  have hobject : c ≠ '{' := hne rfl
  have hnull : c ≠ 'n' := hne rfl
  have htrue : c ≠ 't' := hne rfl
  have hfalse : c ≠ 'f' := hne rfl
  have hsign : c ≠ '-' := hne rfl
  have hnumber : readNumber (c :: text) = readUnsigned (c :: text) := by
    unfold readNumber
    split
    · rename_i heq
      cases heq
      exact absurd rfl hsign
    · rfl
  simp only [readValue, hquote, hlist, hobject, hnull, htrue, hfalse, if_false, hnumber]

theorem nat_readsBack (n : Nat) : (nat n).ReadsBack := by
  apply readsBack_of_step
  intro fuel rest _ hrest
  obtain ⟨c, cs, hdecimal, hdigit, _⟩ := exists_decimal_cons n
  have hread := readUnsigned_decimal n hrest
  rw [hdecimal] at hread
  rw [write, hdecimal]
  exact (readValue_of_isDigit hdigit fuel (cs ++ rest)).trans hread

/-- After a sign any number is read as one that is not natural. -/
theorem number_readsBack : number.ReadsBack := by
  apply readsBack_of_step
  intro fuel rest _ hrest
  have hzero : decimal 0 = ['0'] := by
    rw [decimal, digits, if_pos (.inl (by decide))]
    rfl
  have hread := readUnsigned_decimal 0 hrest
  rw [hzero] at hread
  show (readUnsigned (['0'] ++ rest)).map _ = _
  rw [hread]
  rfl

theorem string_readsBack (text : Option String) : (string text).ReadsBack := by
  apply readsBack_of_step
  intro fuel rest _ _
  have htext : write (.string text) ++ rest = '"' :: (writeInside text ++ '"' :: rest) := by
    simp [write, writeString]
  rw [htext]
  show (readString (writeInside text ++ '"' :: rest)).map _ = _
  rw [readString_inside]
  rfl

/-- A list that does not end at once has items. -/
theorem readValue_items {text : List Char} (hblanks : skipBlanks text = text)
    (hclose : ∀ rest, text ≠ ']' :: rest) (fuel : Nat) :
    readValue (fuel + 1) ('[' :: text) = (readItems fuel text).map fun read =>
      (.array read.1, read.2) := by
  rw [readValue, if_neg (by decide), if_pos rfl, hblanks]
  split
  · exact absurd rfl (hclose _)
  · rfl

theorem array_readsBack {items : List Value} (hitems : ∀ v ∈ items, v.ReadsBack) :
    (array items).ReadsBack := by
  apply readsBack_of_step
  intro fuel rest hfuel _
  cases items with
  | nil => rfl
  | cons item items =>
      rw [write, List.length_cons] at hfuel
      have hread : readItems fuel (write item ++ (writeItems items ++ rest)) =
          some (item :: items, rest) :=
        readItems_write (fun v hv => hitems v (List.mem_cons_of_mem _ hv))
          (hitems item List.mem_cons_self) (by omega)
      -- no item starts with the bracket that would end the list
      have hclose : ∀ text, write item ++ (writeItems items ++ rest) ≠ ']' :: text := by
        obtain ⟨c, cs, hwrite, hopens⟩ := exists_write_cons item
        rw [hwrite]
        rintro _ ⟨⟩
        exact absurd hopens (by decide)
      rw [write, List.cons_append, List.append_assoc,
        readValue_items (skipBlanks_write item _) hclose, hread]
      rfl

theorem object_readsBack {members : List (Option String × Value)}
    (hmembers : ∀ member ∈ members, member.2.ReadsBack) : (object members).ReadsBack := by
  apply readsBack_of_step
  intro fuel rest hfuel _
  cases members with
  | nil => rfl
  | cons member members =>
      obtain ⟨name, v⟩ := member
      rw [write, List.length_cons, List.length_append, List.length_cons] at hfuel
      let more := writeString name ++ ':' :: (write v ++ (writeMembers members ++ rest))
      have hmore : write (.object ((name, v) :: members)) ++ rest = '{' :: more := by
        simp [write, more]
      have hv : v.ReadsBack := hmembers (name, v) List.mem_cons_self
      have hread : readMembers fuel more = some ((name, v) :: members, rest) :=
        readMembers_write (fun member hm => hmembers member (List.mem_cons_of_mem _ hm)) hv
          (by omega)
      rw [hmore]
      show (readMembers fuel more).map _ = _
      rw [hread]
      rfl

/-- Every value is read back from its text. -/
theorem readsBack : ∀ v : Value, v.ReadsBack
  | .null => null_readsBack
  | .bool b => bool_readsBack b
  | .nat n => nat_readsBack n
  | .number => number_readsBack
  | .string text => string_readsBack text
  | .array items => array_readsBack fun v _ => readsBack v
  | .object members => object_readsBack fun member _ => readsBack member.2
termination_by v => sizeOf v
decreasing_by
  · have := List.sizeOf_lt_of_mem ‹_›
    simp only [array.sizeOf_spec]
    omega
  · have := List.sizeOf_lt_of_mem ‹_›
    obtain ⟨name, v⟩ := member
    simp only [object.sizeOf_spec, Prod.mk.sizeOf_spec] at this ⊢
    omega

end Value

/-- The value of a text that was written is the value it was written for. -/
theorem read?_write (v : Value) : read? (write v) = some v := by
  have hblanks := skipBlanks_write v []
  have hread := v.readsBack (2 * (write v).length + 2) [] (by omega) .nil
  rw [List.append_nil] at hblanks hread
  rw [read?, hblanks, hread]
  rfl

theorem parse?_render (v : Value) : parse? (render v) = some v := by
  rw [parse?, render, String.toList_ofList, read?_write]

end Json

end MomentumChain
