import MomentumChain.Proofs.Text
import Mathlib.Data.List.Basic

/-!
# The texts of identifiers

Reading looks at bytes, and the grammar of the texts is one of characters.  The two agree
because characters are told by their bytes: a tag is in front of a text exactly if its bytes are
(`Utf8.flatMap_prefix_iff`), and the bytes of a character are digits exactly if it is one
(`Hex.onlyDigits_iff`).

A text of digits is read or has one cause of being unreadable (`Hex.decode_answers`,
`Hex.Faulty.unique`).  So a text comes to one of three answers by what is left of it without its
tag (`Identifier.read_answers`), and that is the grammar of addresses and of tokens
(`identifiers_grammar`).
-/

namespace MomentumChain

/-! ## Characters and bytes -/

namespace Utf8

/-- The first character of a text is told by the bytes that begin with it. -/
theorem utf8EncodeChar_append_inj {c d : Char} {after other : Bytes}
    (h : String.utf8EncodeChar c ++ after = String.utf8EncodeChar d ++ other) :
    c = d ∧ after = other := by
  have hbytes := congrArg List.toByteArray h
  rw [List.toByteArray_append, List.toByteArray_append] at hbytes
  have hc := ByteArray.utf8DecodeChar?_utf8EncodeChar_append (c := c) (b := after.toByteArray)
  rw [hbytes, ByteArray.utf8DecodeChar?_utf8EncodeChar_append] at hc
  cases hc
  exact ⟨rfl, List.append_cancel_left h⟩

/-- Texts that begin alike have bytes that begin alike, and no others have. -/
theorem flatMap_prefix_iff {tag text : List Char} :
    tag.flatMap String.utf8EncodeChar <+: text.flatMap String.utf8EncodeChar ↔ tag <+: text := by
  induction tag generalizing text with
  | nil => simp
  | cons c tag ih =>
      cases text with
      | nil => simp [String.utf8EncodeChar_ne_nil]
      | cons d text =>
          rw [List.flatMap_cons, List.flatMap_cons, List.cons_prefix_cons]
          constructor
          · rintro ⟨after, hafter⟩
            rw [List.append_assoc] at hafter
            obtain ⟨rfl, hrest⟩ := utf8EncodeChar_append_inj hafter
            exact ⟨rfl, ih.mp ⟨after, hrest⟩⟩
          · rintro ⟨rfl, hbegins⟩
            exact (List.prefix_append_right_inj _).mpr (ih.mpr hbegins)

/-- The first byte of a character is its code or no ASCII byte. -/
theorem exists_utf8EncodeChar_cons (c : Char) :
    ∃ byte rest, String.utf8EncodeChar c = byte :: rest ∧
      (byte.toNat = c.toNat ∨ 128 ≤ byte.toNat) := by
  have hcode : c.val.toNat = c.toNat := rfl
  rw [String.utf8EncodeChar, hcode]
  -- by the number of bytes, and the first of several is marked in its highest bits
  split
  · refine ⟨_, _, rfl, .inl ?_⟩
    rw [UInt8.toNat_ofNat']
    omega
  · split
    · refine ⟨_, _, rfl, .inr ?_⟩
      rw [UInt8.toNat_ofNat']
      omega
    · split <;>
      · refine ⟨_, _, rfl, .inr ?_⟩
        rw [UInt8.toNat_ofNat']
        omega

end Utf8

namespace Hex

/-- A hexadecimal digit of either case. -/
def IsDigit (c : Char) : Prop := ('0' ≤ c ∧ c ≤ '9') ∨ ('a' ≤ c ∧ c ≤ 'f') ∨ ('A' ≤ c ∧ c ≤ 'F')

theorem isDigit_iff_toNat {c : Char} :
    IsDigit c ↔ (48 ≤ c.toNat ∧ c.toNat ≤ 57) ∨ (97 ≤ c.toNat ∧ c.toNat ≤ 102) ∨
      (65 ≤ c.toNat ∧ c.toNat ≤ 70) := by
  simp only [IsDigit, Char.le_def, UInt32.le_iff_toNat_le]
  rfl

theorem value?_isSome_iff {byte : UInt8} :
    (value? byte).isSome ↔ (48 ≤ byte.toNat ∧ byte.toNat ≤ 57) ∨
      (97 ≤ byte.toNat ∧ byte.toNat ≤ 102) ∨ (65 ≤ byte.toNat ∧ byte.toNat ≤ 70) := by
  unfold value?
  grind

theorem utf8EncodeChar_of_isDigit {c : Char} (h : IsDigit c) :
    ∃ n < 16, (String.utf8EncodeChar c).map value? = [some n] ∧ digit n = c.toLower := by
  have hcodes : ∀ code < 103, (48 ≤ code ∧ code ≤ 57) ∨ (97 ≤ code ∧ code ≤ 102) ∨
      (65 ≤ code ∧ code ≤ 70) →
      ∃ n < 16, (String.utf8EncodeChar (Char.ofNat code)).map value? = [some n] ∧
        digit n = (Char.ofNat code).toLower := by decide
  rw [isDigit_iff_toNat] at h
  -- the last digit is `f`, with code 102
  have := hcodes c.toNat (by omega) h
  rwa [Char.ofNat_toNat] at this

theorem isDigit_of_utf8EncodeChar {c : Char}
    (h : ∀ byte ∈ String.utf8EncodeChar c, (value? byte).isSome) : IsDigit c := by
  obtain ⟨byte, rest, hbytes, hbyte⟩ := Utf8.exists_utf8EncodeChar_cons c
  have hdigit := value?_isSome_iff.mp (h byte (hbytes ▸ List.mem_cons_self))
  rw [isDigit_iff_toNat]
  omega

/-- The digits of a text have values, and these are written by the digits in lower case. -/
theorem exists_values {text : List Char} (h : ∀ c ∈ text, IsDigit c) :
    ∃ ds : List Nat, (text.flatMap String.utf8EncodeChar).map value? = ds.map some ∧
      (∀ d ∈ ds, d < 16) ∧ ds.map digit = text.map Char.toLower := by
  induction text with
  | nil => exact ⟨[], rfl, by simp, rfl⟩
  | cons c text ih =>
      rw [List.forall_mem_cons] at h
      obtain ⟨ds, hvalues, hsmall, hdigits⟩ := ih h.2
      obtain ⟨d, hd, hvalue, hdigit⟩ := utf8EncodeChar_of_isDigit h.1
      refine ⟨d :: ds, ?_, List.forall_mem_cons.mpr ⟨hd, hsmall⟩, ?_⟩
      · rw [List.flatMap_cons, List.map_append, hvalue, hvalues, List.map_cons]
        rfl
      · rw [List.map_cons, hdigit, hdigits, List.map_cons]

theorem isSome_of_values {text : Bytes} {ds : List Nat}
    (values : text.map value? = ds.map some) : ∀ byte ∈ text, (value? byte).isSome := by
  intro byte hbyte
  have hmem : value? byte ∈ ds.map some := values ▸ List.mem_map_of_mem hbyte
  obtain ⟨d, _, hd⟩ := List.mem_map.mp hmem
  rw [← hd]
  rfl

/-- The text has digits only. -/
def OnlyDigits (text : String) : Prop := ∀ c ∈ text.toList, IsDigit c

theorem onlyDigits_iff {text : String} :
    OnlyDigits text ↔ ∀ byte ∈ Utf8.encode text, (value? byte).isSome := by
  constructor
  · intro h
    obtain ⟨ds, hvalues, _⟩ := exists_values h
    exact isSome_of_values hvalues
  · exact fun h c hc => isDigit_of_utf8EncodeChar fun byte hbyte =>
      h byte (List.mem_flatMap.mpr ⟨c, hc, hbyte⟩)

/-- Every digit is one byte. -/
theorem OnlyDigits.size_eq {text : String} (h : OnlyDigits text) :
    Utf8.size text = text.length := by
  obtain ⟨ds, hvalues, _, hdigits⟩ := exists_values h
  have hbytes := congrArg List.length hvalues
  have hchars := congrArg List.length hdigits
  rw [List.length_map, List.length_map] at hbytes hchars
  rw [← Utf8.length_encode, Utf8.encode, hbytes, hchars, String.length_toList]

/-! ## Reading digits -/

/-- What comes of reading pairs of digits from a position on, each with what the text is. -/
inductive Pairs (position : Nat) (text : Bytes) : Except Error Bytes → Prop where
  | bytes {ds : List Nat} (values : text.map value? = ds.map some) :
      Pairs position text (.ok (Nibbles.pairs ds))
  | badDigit {place : Nat} {byte : UInt8} (found : text[place]? = some byte)
      (bad : value? byte = none) (digits : ∀ b ∈ text.take place, (value? b).isSome) :
      Pairs position text (.error (.badDigit byte (position + place)))

/-- A pair of digits in front is one byte more, and moves a bad digit by two places. -/
theorem Pairs.cons {position high low : Nat} {first second : UInt8} {text : Bytes}
    {answer : Except Error Bytes} (hhigh : value? first = some high)
    (hlow : value? second = some low) (h : Pairs (position + 2) text answer) :
    Pairs position (first :: second :: text)
      ((UInt8.ofNat (16 * high + low) :: ·) <$> answer) := by
  cases h with
  | @bytes ds values =>
      have values' : (first :: second :: text).map value? = (high :: low :: ds).map some := by
        simp only [List.map_cons, hhigh, hlow, values]
      exact .bytes values'
  | @badDigit place byte found bad digits =>
      have digits' : ∀ b ∈ (first :: second :: text).take (place + 2), (value? b).isSome := by
        simpa [hhigh, hlow] using digits
      rw [Nat.add_assoc, Nat.add_comm 2]
      exact .badDigit found bad digits'

theorem decodeFrom_pairs : ∀ (position : Nat) (text : Bytes), text.length % 2 = 0 →
    Pairs position text (decodeFrom position text)
  | position, [], _ => show Pairs position [] (.ok (Nibbles.pairs [])) from .bytes rfl
  | _, [_], heven => by cases heven
  | position, first :: second :: text, heven => by
      rw [decodeFrom, valueAt, valueAt]
      cases hhigh : value? first with
      | none =>
          have hfound : (first :: second :: text)[0]? = some first := rfl
          exact .badDigit hfound hhigh (by simp)
      | some high =>
          cases hlow : value? second with
          | none =>
              have hfound : (first :: second :: text)[1]? = some second := rfl
              exact .badDigit hfound hlow (by simp [hhigh])
          | some low =>
              have heven' : text.length % 2 = 0 := by
                rw [List.length_cons, List.length_cons] at heven
                omega
              exact .cons hhigh hlow (decodeFrom_pairs (position + 2) text heven')

/-- Digits taken in pairs are written by their digits. -/
theorem encode_pairs {ds : List Nat} (heven : ds.length % 2 = 0) (h : ∀ d ∈ ds, d < 16) :
    encode (Nibbles.pairs ds) = String.ofList (ds.map digit) := by
  rw [encode, String.ofList_inj]
  fun_induction Nibbles.pairs ds with
  | case1 high low rest ih =>
      simp only [List.forall_mem_cons] at h
      obtain ⟨hhigh, hlow, hrest⟩ := h
      have hsmall : 16 * high + low < 256 := by omega
      have hbyte : (UInt8.ofNat (16 * high + low)).toNat = 16 * high + low :=
        UInt8.toNat_ofNat_of_lt' hsmall
      have heven' : rest.length % 2 = 0 := by
        rw [List.length_cons, List.length_cons] at heven
        omega
      have hdiv : (16 * high + low) / 16 = high := by omega
      have hmod : (16 * high + low) % 16 = low := by omega
      rw [List.flatMap_cons, ih heven' hrest, ofByte, hbyte, hdiv, hmod]
      rfl
  | case2 ds hds =>
      cases ds with
      | nil => rfl
      | cons high ds =>
          cases ds with
          | nil => cases heven
          | cons low rest => exact absurd rfl (hds high low rest)

theorem length_pairs : ∀ ds : List Nat, (Nibbles.pairs ds).length = ds.length / 2
  | [] | [_] => by simp [Nibbles.pairs]
  | high :: low :: rest => by
      rw [Nibbles.pairs, List.length_cons, length_pairs rest, List.length_cons, List.length_cons]
      omega

/-- Why a text is not readable.  The number of digits comes first, and then the first byte that
is no digit. -/
inductive Faulty (text : String) : Error → Prop where
  | oddLength (odd : Utf8.size text % 2 = 1) : Faulty text .oddLength
  | badDigit {position : Nat} {byte : UInt8} (even : Utf8.size text % 2 = 0)
      (found : (Utf8.encode text)[position]? = some byte) (bad : value? byte = none)
      (digits : ∀ b ∈ (Utf8.encode text).take position, (value? b).isSome) :
      Faulty text (.badDigit byte position)

theorem Faulty.unreadable {text : String} {cause : Error} (h : Faulty text cause) :
    ¬ (Utf8.size text % 2 = 0 ∧ OnlyDigits text) := by
  rintro ⟨heven, hdigits⟩
  cases h with
  | oddLength odd => omega
  | badDigit even found bad digits =>
      have hdigit := onlyDigits_iff.mp hdigits _ (List.mem_of_getElem? found)
      rw [bad] at hdigit
      cases hdigit

theorem le_of_digits {text : Bytes} {place count : Nat} {byte : UInt8}
    (found : text[place]? = some byte) (bad : value? byte = none)
    (digits : ∀ b ∈ text.take count, (value? b).isSome) : count ≤ place := by
  refine Nat.not_lt.mp fun hlt => ?_
  have hmem : byte ∈ text.take count :=
    List.mem_of_getElem? ((List.getElem?_take_of_lt hlt).trans found)
  have hdigit := digits byte hmem
  rw [bad] at hdigit
  cases hdigit

/-- A text has one cause at most. -/
theorem Faulty.unique {text : String} {cause other : Error} (h : Faulty text cause)
    (h' : Faulty text other) : cause = other := by
  cases h with
  | oddLength odd =>
      cases h' with
      | oddLength => rfl
      | badDigit even => omega
  | @badDigit position byte even found bad digits =>
      cases h' with
      | oddLength odd => omega
      | @badDigit position' byte' _ found' bad' digits' =>
          have hplace : position = position' :=
            Nat.le_antisymm (le_of_digits found' bad' digits) (le_of_digits found bad digits')
          subst hplace
          cases found.symm.trans found'
          rfl

/-- What comes of reading a text of digits, each with what the text is. -/
inductive Answers (text : String) : Except Error Bytes → Prop where
  | bytes {bytes : Bytes} (even : Utf8.size text % 2 = 0) (digits : OnlyDigits text)
      (length : 2 * bytes.length = Utf8.size text)
      (lower : encode bytes = text.map Char.toLower) : Answers text (.ok bytes)
  | error {cause : Error} (faulty : Faulty text cause) : Answers text (.error cause)

theorem decode_answers (text : String) : Answers text (decode (Utf8.encode text)) := by
  rw [decode, Utf8.length_encode]
  by_cases hodd : Utf8.size text % 2 = 1
  · rw [if_pos hodd]
    exact .error (.oddLength hodd)
  · have heven : Utf8.size text % 2 = 0 := by omega
    have hpairs := decodeFrom_pairs 0 (Utf8.encode text) (Utf8.length_encode text ▸ heven)
    rw [if_neg hodd]
    generalize decodeFrom 0 (Utf8.encode text) = decoded at hpairs
    cases hpairs with
    | badDigit found bad digits =>
        rw [Nat.zero_add]
        exact .error (.badDigit heven found bad digits)
    | @bytes ds values =>
        -- the digits of the characters are those of the bytes
        have hdigits : OnlyDigits text := onlyDigits_iff.mpr (isSome_of_values values)
        obtain ⟨ds', hvalues, hsmall, hlower⟩ := exists_values hdigits
        have hds : ds' = ds :=
          List.map_injective_iff.mpr (fun _ _ => Option.some.inj) (hvalues.symm.trans values)
        subst hds
        have hlength := congrArg List.length values
        rw [List.length_map, List.length_map, Utf8.length_encode] at hlength
        refine .bytes heven hdigits ?_ ?_
        · rw [length_pairs, ← hlength]
          omega
        · rw [encode_pairs (hlength ▸ heven) hsmall, hlower, ← String.toList_inj,
            String.toList_ofList, String.toList_map]

end Hex

/-! ## Identifiers -/

namespace Identifier

/-- The text without one leading tag. -/
def body (tag text : String) : String :=
  if tag.toList <+: text.toList then String.ofList (text.toList.drop tag.length) else text

theorem dropTag_encode (tag text : String) :
    dropTag (Utf8.encode tag) (Utf8.encode text) = Utf8.encode (body tag text) := by
  have hbegins : (Utf8.encode tag).isPrefixOf (Utf8.encode text) = true ↔
      tag.toList <+: text.toList := by
    rw [List.isPrefixOf_iff_prefix]
    exact Utf8.flatMap_prefix_iff
  rw [dropTag, body]
  by_cases htag : tag.toList <+: text.toList
  · rw [if_pos (hbegins.mpr htag), if_pos htag]
    obtain ⟨rest, hrest⟩ := htag
    have htext : text = tag ++ String.ofList rest := by
      rw [← String.toList_inj, String.toList_append, String.toList_ofList, hrest]
    have hbody : text.toList.drop tag.length = rest := by
      rw [← hrest, ← String.length_toList, List.drop_left]
    rw [hbody, htext, Utf8.encode_append, List.drop_left]
  · rw [if_neg (mt hbegins.mp htag), if_neg htag]

section

variable {α β : Type} {tag : String} {size : Nat} {text : α → String} {s : String}
  {answer : Except Error α}

/-- What comes of reading a text, each with what the text is without its tag. -/
inductive Answers (tag : String) (size : Nat) (text : α → String) (s : String) :
    Except Error α → Prop where
  | identifier {a : α} (size_eq : Utf8.size (body tag s) = 2 * size)
      (digits : Hex.OnlyDigits (body tag s))
      (lower : text a = tag ++ (body tag s).map Char.toLower) : Answers tag size text s (.ok a)
  | invalidLength (even : Utf8.size (body tag s) % 2 = 0) (digits : Hex.OnlyDigits (body tag s))
      (size_ne : Utf8.size (body tag s) ≠ 2 * size) :
      Answers tag size text s (.error (.invalidLength size (Utf8.size (body tag s) / 2)))
  | invalidHex {cause : Hex.Error} (faulty : Hex.Faulty (body tag s) cause) :
      Answers tag size text s (.error (.invalidHex cause))

theorem read_answers (tag : String) (size : Nat) (s : String) :
    Answers tag size (write tag) s (read tag size s) := by
  have hdecoded := Hex.decode_answers (body tag s)
  rw [read, dropTag_encode]
  generalize Hex.decode (Utf8.encode (body tag s)) = decoded at hdecoded
  cases hdecoded with
  | error faulty => exact .invalidHex faulty
  | @bytes bytes even digits length lower =>
      by_cases hsize : bytes.length = size
      · have hvector : Bytes.toVector? size bytes = some ⟨bytes.toArray, by simpa using hsize⟩ :=
          dif_pos hsize
        simp only [hvector]
        refine .identifier (by omega) digits ?_
        rw [write, ← lower]
        rfl
      · have hvector : Bytes.toVector? size bytes = none := dif_neg hsize
        have hbytes : bytes.length = Utf8.size (body tag s) / 2 := by omega
        simp only [hvector, hbytes]
        exact .invalidLength even digits (by omega)

namespace Answers

/-- The bytes may be read as a value that has the same text. -/
theorem map {text' : β → String} (f : α → β) (hf : ∀ a, text' (f a) = text a)
    (h : Answers tag size text s answer) : Answers tag size text' s (f <$> answer) := by
  cases h with
  | identifier size_eq digits lower => exact .identifier size_eq digits ((hf _).trans lower)
  | invalidLength even digits size_ne => exact .invalidLength even digits size_ne
  | invalidHex faulty => exact .invalidHex faulty

theorem exists_ok_iff (h : Answers tag size text s answer) :
    (∃ a, answer = .ok a) ↔ (body tag s).length = 2 * size ∧ Hex.OnlyDigits (body tag s) := by
  cases h with
  | identifier size_eq digits => exact iff_of_true ⟨_, rfl⟩ ⟨digits.size_eq ▸ size_eq, digits⟩
  | invalidLength even digits size_ne =>
      exact iff_of_false (fun ⟨_, h⟩ => nomatch h) fun h => size_ne (digits.size_eq.trans h.1)
  | invalidHex faulty =>
      refine iff_of_false (fun ⟨_, h⟩ => nomatch h) fun h => faulty.unreadable ⟨?_, h.2⟩
      rw [h.2.size_eq, h.1, Nat.mul_mod_right]

theorem invalidLength_iff (h : Answers tag size text s answer) {expected actual : Nat} :
    answer = .error (.invalidLength expected actual) ↔
      (Utf8.size (body tag s) % 2 = 0 ∧ Hex.OnlyDigits (body tag s) ∧
          Utf8.size (body tag s) ≠ 2 * size) ∧
        expected = size ∧ actual = Utf8.size (body tag s) / 2 := by
  cases h with
  | identifier size_eq => exact iff_of_false (fun h => nomatch h) fun h => h.1.2.2 size_eq
  | invalidLength even digits size_ne =>
      rw [Except.error.injEq, Error.invalidLength.injEq, eq_comm, @eq_comm _ _ actual]
      exact (and_iff_right ⟨even, digits, size_ne⟩).symm
  | invalidHex faulty =>
      exact iff_of_false (fun h => nomatch h) fun h => faulty.unreadable ⟨h.1.1, h.1.2.1⟩

theorem exists_invalidHex_iff (h : Answers tag size text s answer) :
    (∃ cause, answer = .error (.invalidHex cause)) ↔
      ¬ (Utf8.size (body tag s) % 2 = 0 ∧ Hex.OnlyDigits (body tag s)) := by
  cases h with
  | identifier size_eq digits =>
      refine iff_of_false (fun ⟨_, h⟩ => nomatch h) (not_not_intro ⟨?_, digits⟩)
      rw [size_eq, Nat.mul_mod_right]
  | invalidLength even digits =>
      exact iff_of_false (fun ⟨_, h⟩ => nomatch h) (not_not_intro ⟨even, digits⟩)
  | invalidHex faulty => exact iff_of_true ⟨_, rfl⟩ faulty.unreadable

theorem invalidHex_iff (h : Answers tag size text s answer) {cause : Hex.Error} :
    answer = .error (.invalidHex cause) ↔ Hex.Faulty (body tag s) cause := by
  constructor
  · rintro rfl
    cases h with
    | invalidHex faulty => exact faulty
  · intro hfaulty
    obtain ⟨other, rfl⟩ := h.exists_invalidHex_iff.mpr hfaulty.unreadable
    cases h with
    | invalidHex faulty => rw [faulty.unique hfaulty]

end Answers

/-- What the texts of a kind of identifier are: `read` reads them and `text` writes them. -/
structure Grammar (tag : String) (size : Nat) (read : String → Except Error α)
    (text : α → String) : Prop where
  /-- After at most one tag come twice as many digits as bytes. -/
  reads : ∀ s, (∃ a, read s = .ok a) ↔
    (body tag s).length = 2 * size ∧ Hex.OnlyDigits (body tag s)
  /-- What was read is written by the same digits in lower case. -/
  lower : ∀ s a, read s = .ok a → text a = tag ++ (body tag s).map Char.toLower
  invalidLength : ∀ s expected actual, read s = .error (.invalidLength expected actual) ↔
    (Utf8.size (body tag s) % 2 = 0 ∧ Hex.OnlyDigits (body tag s) ∧
        Utf8.size (body tag s) ≠ 2 * size) ∧
      expected = size ∧ actual = Utf8.size (body tag s) / 2
  invalidHex : ∀ s, (∃ cause, read s = .error (.invalidHex cause)) ↔
    ¬ (Utf8.size (body tag s) % 2 = 0 ∧ Hex.OnlyDigits (body tag s))
  cause : ∀ s cause, read s = .error (.invalidHex cause) ↔ Hex.Faulty (body tag s) cause
  read_text : ∀ a, read (text a) = .ok a

theorem Grammar.of_answers {read : String → Except Error α}
    (hanswers : ∀ s, Answers tag size text s (read s)) (hread : ∀ a, read (text a) = .ok a) :
    Grammar tag size read text where
  reads s := (hanswers s).exists_ok_iff
  lower s a hok := by
    have hanswer := hanswers s
    rw [hok] at hanswer
    cases hanswer with
    | identifier size_eq digits lower => exact lower
  invalidLength s _ _ := (hanswers s).invalidLength_iff
  invalidHex s := (hanswers s).exists_invalidHex_iff
  cause s _ := (hanswers s).invalidHex_iff
  read_text := hread

end

end Identifier

/-- Addresses have 20 bytes and the tag `0x`, and tokens have 10 bytes and the tag `zts`.  Both
are read and written by the same grammar. -/
theorem identifiers_grammar :
    Identifier.Grammar "0x" 20 Address.read Address.text ∧
      Identifier.Grammar "zts" 10 Token.read Token.text := by
  have haddress (s : String) :
      Identifier.Answers "0x" 20 Address.text s (Address.read s) :=
    (Identifier.read_answers "0x" 20 s).map Address.mk fun _ => rfl
  have htoken (s : String) : Identifier.Answers "zts" 10 Token.text s (Token.read s) :=
    (Identifier.read_answers "zts" 10 s).map Token.mk fun _ => rfl
  exact ⟨.of_answers haddress Address.read_text, .of_answers htoken Token.read_text⟩

-- one tag is dropped, and the second one has a bad digit
example : Address.read "0x0x0100000000000000000000000000000000000001" =
    .error (.invalidHex (.badDigit 120 1)) := by decide

end MomentumChain
