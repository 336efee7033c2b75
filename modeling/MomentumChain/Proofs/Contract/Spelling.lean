import MomentumChain.Proofs.Contract.Validate

/-!
# Addresses and hashes in calls

An address and a hash are held by their texts, which are written with a tag and read with or
without it.  A call is readable if its parameters are as long as they would be written, and that
is with the tag.  So a call whose text has its tag ends with the text.  A call whose text has no
tag must go on after it, for as long as the tag would be, and what stands there is not looked at
(`spelled_calls`).  Such a call is readable although bytes trail its text (`untagged_trails`).
-/

namespace MomentumChain

/-! ## Lengths of texts -/

namespace Hex

theorem length_of_decodeFrom : ∀ {position : Nat} {text bytes : Bytes},
    decodeFrom position text = .ok bytes → bytes.length = text.length / 2
  | _, [], _, h => by
      cases h
      rfl
  | _, [_], _, h => by
      cases h
      simp
  | _, high :: low :: rest, _, h => by
      rw [decodeFrom] at h
      obtain ⟨_, _, h⟩ := Contract.bind_eq_ok_iff.mp h
      obtain ⟨_, _, h⟩ := Contract.bind_eq_ok_iff.mp h
      obtain ⟨later, hlater, h⟩ := Contract.bind_eq_ok_iff.mp h
      cases h
      rw [List.length_cons, length_of_decodeFrom hlater, List.length_cons, List.length_cons]
      omega

/-- A text that can be read has two digits for each byte. -/
theorem length_of_decode {text bytes : Bytes} (h : decode text = .ok bytes) :
    text.length = 2 * bytes.length := by
  rw [decode] at h
  split at h
  · cases h
  · have := length_of_decodeFrom h
    omega

end Hex

namespace Identifier

theorem length_dropTag (tag text : Bytes) :
    text.length = (dropTag tag text).length + if tag <+: text then tag.length else 0 := by
  rw [dropTag]
  by_cases htag : tag <+: text
  · rw [if_pos htag, if_pos (List.isPrefixOf_iff_prefix.mpr htag), List.length_drop]
    have := htag.length_le
    omega
  · rw [if_neg htag, if_neg (fun h => htag (List.isPrefixOf_iff_prefix.mp h)), Nat.add_zero]

theorem length_of_read {tag text : String} {size : Nat} {identifier : Vector UInt8 size}
    (h : read tag size text = .ok identifier) :
    (dropTag (Utf8.encode tag) (Utf8.encode text)).length = 2 * size := by
  rw [read] at h
  split at h
  · cases h
  · rename_i bytes hdecode
    split at h
    · rename_i found hfound
      rw [Bytes.toVector?] at hfound
      split at hfound
      · case isTrue hlength => rw [Hex.length_of_decode hdecode, hlength]
      · cases hfound
    · cases h

end Identifier

/-- The tag of an address or a hash is dropped from a hash in the same way. -/
theorem Nibbles.dropTag_eq (text : Bytes) : dropTag text = Identifier.dropTag [48, 120] text := by
  rw [dropTag.eq_def]
  split
  · simp [Identifier.dropTag, List.isPrefixOf]
  · case h_2 hother =>
      rw [Identifier.dropTag, if_neg]
      rw [List.isPrefixOf_iff_prefix]
      rintro ⟨rest, rfl⟩
      exact hother rest rfl

/-- A text begins with the tag of addresses and hashes. -/
def Tagged (s : String) : Prop := [48, 120] <+: Utf8.encode s

instance (s : String) : Decidable (Tagged s) := inferInstanceAs (Decidable (_ <+: _))

theorem size_of_dropTag {s : String} {size : Nat}
    (h : (Identifier.dropTag [48, 120] (Utf8.encode s)).length = size) :
    Utf8.size s = if Tagged s then size + 2 else size := by
  rw [← Utf8.length_encode, Identifier.length_dropTag [48, 120], h]
  by_cases htag : Tagged s
  · rw [if_pos htag, if_pos (show [48, 120] <+: Utf8.encode s from htag)]
    rfl
  · rw [if_neg htag, if_neg (show ¬ [48, 120] <+: Utf8.encode s from htag)]
    rfl

theorem Address.size_of_read {s : String} {a : Address} (h : Address.read s = .ok a) :
    Utf8.size s = if Tagged s then 42 else 40 := by
  have htag : Utf8.encode "0x" = [48, 120] := by decide
  cases hread : Identifier.read "0x" 20 s with
  | error e =>
      rw [Address.read, hread] at h
      cases h
  | ok identifier =>
      have hlength := Identifier.length_of_read hread
      rw [htag] at hlength
      exact size_of_dropTag hlength

theorem Hash.size_of_read? {s : String} {h : Hash} (hread : Hash.read? s = some h) :
    Utf8.size s = if Tagged s then 66 else 64 := by
  simp only [Hash.read?, Option.ite_none_right_eq_some] at hread
  rw [Nibbles.dropTag_eq] at hread
  exact size_of_dropTag hread.1

namespace Contract

namespace Format

variable {α : Type}

/-- Values held by their texts. -/
def spelled (spell : α → String) (read? : String → Option α) : Format α where
  write v := text.write (spell v)
  read? bytes := do
    let (s, rest) ← text.read? bytes
    let v ← read? s
    pure (v, rest)

theorem address_eq : address = spelled Address.text fun s => (Address.read s).toOption := rfl

theorem hash_eq : hash = spelled Hash.text Hash.read? := rfl

theorem spelled_read?_eq_some_iff {spell : α → String} {read? : String → Option α} {bytes : Bytes}
    {v : α} {rest : Bytes} :
    (spelled spell read?).read? bytes = some (v, rest) ↔
      ∃ s, Utf8.size s < UInt64.size ∧ bytes = text.write s ++ rest ∧ read? s = some v := by
  constructor
  · intro h
    obtain ⟨⟨s, left⟩, htext, h⟩ := Option.bind_eq_some_iff.mp h
    obtain ⟨found, hread, h⟩ := Option.bind_eq_some_iff.mp h
    cases h
    obtain ⟨hsize, hbytes⟩ := text_read?_eq_some_iff.mp htext
    exact ⟨s, hsize, hbytes, hread⟩
  · rintro ⟨s, hsize, hbytes, hread⟩
    have htext := text_read?_eq_some_iff.mpr ⟨hsize, hbytes⟩
    simp [spelled, htext, hread]

theorem length_text_write (s : String) : (text.write s).length = 8 + Utf8.size s := by
  rw [text_write, List.length_append, Utf8.length_encode]
  simp [word]

end Format

/-- A call is readable if what follows a text without its tag is as long as the tag. -/
theorem unpack?_spelled_iff {α : Type} {spell : α → String} {read? : String → Option α}
    {size : Nat} (hbound : size + 2 < UInt64.size) (hspell : ∀ v, Utf8.size (spell v) = size + 2)
    (hread : ∀ {s v}, read? s = some v → Utf8.size s = if Tagged s then size + 2 else size)
    {signature : String} {data : Bytes} {v : α} :
    unpack? (.spelled spell read?) signature data = some v ↔
      ∃ s rest, data = selector signature ++ (Format.text.write s ++ rest) ∧ read? s = some v ∧
        rest.length = if Tagged s then 0 else 2 := by
  have hlengths : ∀ {s rest}, read? s = some v →
      ((Format.text.write (spell v)).length = (Format.text.write s ++ rest).length ↔
        rest.length = if Tagged s then 0 else 2) := by
    intro s rest hs
    rw [List.length_append, Format.length_text_write, Format.length_text_write, hspell, hread hs]
    split <;> omega
  rw [unpack?_eq_some_iff]
  constructor
  · rintro ⟨parameters, rest, hdata, hparameters, hlength⟩
    obtain ⟨s, _, hbytes, hs⟩ := Format.spelled_read?_eq_some_iff.mp hparameters
    rw [hbytes] at hdata hlength
    exact ⟨s, rest, hdata, hs, (hlengths hs).mp hlength⟩
  · rintro ⟨s, rest, hdata, hs, hrest⟩
    have hsize : Utf8.size s < UInt64.size := by
      rw [hread hs]
      split <;> omega
    exact ⟨_, rest, hdata, Format.spelled_read?_eq_some_iff.mpr ⟨s, hsize, rfl, hs⟩,
      (hlengths hs).mpr hrest⟩

theorem toOption_eq_some_iff {ε α : Type} {x : Except ε α} {a : α} :
    x.toOption = some a ↔ x = .ok a := by
  cases x <;> simp [Except.toOption]

theorem unpack?_address_iff {signature : String} {data : Bytes} {a : Address} :
    unpack? .address signature data = some a ↔
      ∃ s rest, data = selector signature ++ (Format.text.write s ++ rest) ∧
        Address.read s = .ok a ∧ rest.length = if Tagged s then 0 else 2 := by
  rw [Format.address_eq, unpack?_spelled_iff (by decide) Address.size_text
    fun h => Address.size_of_read (toOption_eq_some_iff.mp h)]
  simp only [toOption_eq_some_iff]

theorem unpack?_hash_iff {signature : String} {data : Bytes} {h : Hash} :
    unpack? .hash signature data = some h ↔
      ∃ s rest, data = selector signature ++ (Format.text.write s ++ rest) ∧
        Hash.read? s = some h ∧ rest.length = if Tagged s then 0 else 2 := by
  rw [Format.hash_eq]
  exact unpack?_spelled_iff (by decide) Hash.size_text Hash.size_of_read?

/-- A call with an address or a hash is readable exactly if a text of it follows the selector, and
after the text come no bytes if it has its tag, and two if it has none. -/
theorem spelled_calls (signature : String) (data : Bytes) :
    (∀ a, unpack? .address signature data = some a ↔
        ∃ s rest, data = selector signature ++ (Format.text.write s ++ rest) ∧
          Address.read s = .ok a ∧ rest.length = if Tagged s then 0 else 2) ∧
      ∀ h, unpack? .hash signature data = some h ↔
        ∃ s rest, data = selector signature ++ (Format.text.write s ++ rest) ∧
          Hash.read? s = some h ∧ rest.length = if Tagged s then 0 else 2 :=
  ⟨fun _ => unpack?_address_iff, fun _ => unpack?_hash_iff⟩

/-! ## A text without its tag -/

namespace Untagged

/-- The digits of the address of zero bytes. -/
def digits : String := "0000000000000000000000000000000000000000"

/-- A call with the digits and two more bytes. -/
def data : Bytes := selector "Fuse(address)" ++ (Format.text.write digits ++ [0, 0])

theorem read_digits : Address.read digits = .ok .zero := by cbv

end Untagged

/-- A readable call that does not end with its text. -/
theorem untagged_trails :
    unpack? .address "Fuse(address)" Untagged.data = some .zero ∧
      ∀ s, Untagged.data ≠ selector "Fuse(address)" ++ Format.text.write s := by
  constructor
  · exact unpack?_address_iff.mpr ⟨_, _, Untagged.data.eq_1, Untagged.read_digits, by decide⟩
  · intro s h
    rw [Untagged.data, List.append_cancel_left_eq] at h
    have hsize : Utf8.size s = 42 := by
      have hlength := congrArg List.length h
      rw [List.length_append, Format.length_text_write, Format.length_text_write] at hlength
      have hdigits : Utf8.size Untagged.digits = 40 := by decide
      simp only [List.length_cons, List.length_nil] at hlength
      omega
    -- the same bytes are read as both texts, and only one of them leaves nothing
    have hs := Format.text_readsBack (s := s) (hsize ▸ by decide) []
    have hdigits := Format.text_readsBack (s := Untagged.digits) (by decide) [0, 0]
    rw [List.append_nil, ← h, hdigits] at hs
    cases hs

end Contract

end MomentumChain
