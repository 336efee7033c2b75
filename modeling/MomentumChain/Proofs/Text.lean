import MomentumChain.Address
import MomentumChain.Amount
import MomentumChain.Hash
import MomentumChain.Token
import Mathlib.Data.List.Basic

/-!
# Reading what was written

A text is given back by its bytes, a byte string by its digits, and an address, a token, a hash
or an amount by its text.  Digits are ASCII characters, so the bytes of a text of digits are its
digits one by one (`Hex.encode_encode`), and reading is an induction on the bytes that were
written.

An amount has no fixed number of digits.  A zero is put in front of an odd number of them, and
then the digits taken in pairs are the bytes of the same number (`Nibbles.ofDigitsAfter_pairs`).
-/

namespace MomentumChain

namespace Utf8

theorem toByteArray_encode (text : String) : (encode text).toByteArray = text.toByteArray := by
  have h := String.toByteArray_ofList (l := text.toList)
  rw [String.ofList_toList] at h
  exact h.symm

@[simp] theorem decode?_encode (text : String) : decode? (encode text) = some text := by
  rw [decode?, toByteArray_encode, String.fromUTF8?, dif_pos text.isValidUTF8]
  rfl

/-- A text is read from its own bytes only. -/
theorem eq_encode_of_decode? {bytes : Bytes} {text : String} (h : decode? bytes = some text) :
    bytes = encode text := by
  rw [decode?, String.fromUTF8?] at h
  split at h
  · cases h
    rw [← List.toByteArray_inj, toByteArray_encode]
    rfl
  · cases h

theorem length_encode (text : String) : (encode text).length = size text := by
  rw [size, ← String.size_toByteArray, ← toByteArray_encode, List.size_toByteArray]

@[simp] theorem encode_append (text more : String) :
    encode (text ++ more) = encode text ++ encode more := by
  simp [encode]

end Utf8

namespace Hex

/-- The two digits of a byte as bytes. -/
def digitBytes (byte : UInt8) : Bytes :=
  [UInt8.ofNat (digit (byte.toNat / 16)).toNat, UInt8.ofNat (digit (byte.toNat % 16)).toNat]

theorem utf8EncodeChar_digit : ∀ n < 16,
    String.utf8EncodeChar (digit n) = [UInt8.ofNat (digit n).toNat] := by decide

theorem div_sixteen_lt (byte : UInt8) : byte.toNat / 16 < 16 := by
  have := byte.toNat_lt
  omega

theorem mod_sixteen_lt (byte : UInt8) : byte.toNat % 16 < 16 := Nat.mod_lt _ (by decide)

theorem encode_encode (bytes : Bytes) : Utf8.encode (encode bytes) = bytes.flatMap digitBytes := by
  rw [Utf8.encode, encode, String.toList_ofList]
  induction bytes with
  | nil => rfl
  | cons byte bytes ih =>
      rw [List.flatMap_cons, List.flatMap_append, ih, List.flatMap_cons, ofByte, digitBytes]
      simp [utf8EncodeChar_digit _ (div_sixteen_lt byte),
        utf8EncodeChar_digit _ (mod_sixteen_lt byte)]

theorem length_digits (bytes : Bytes) : (bytes.flatMap digitBytes).length = 2 * bytes.length := by
  induction bytes with
  | nil => rfl
  | cons byte bytes ih =>
      simp [digitBytes, ih]
      omega

/-- A byte is the value of its two digits. -/
theorem ofNat_digits (byte : UInt8) :
    UInt8.ofNat (16 * (byte.toNat / 16) + byte.toNat % 16) = byte := by
  rw [Nat.div_add_mod, UInt8.ofNat_toNat]

theorem decodeFrom_digits (position : Nat) (bytes : Bytes) :
    decodeFrom position (bytes.flatMap digitBytes) = .ok bytes := by
  induction bytes generalizing position with
  | nil => rfl
  | cons byte bytes ih =>
      simp only [List.flatMap_cons, digitBytes, List.cons_append, List.nil_append, decodeFrom,
        valueAt, value?_digit _ (div_sixteen_lt byte), value?_digit _ (mod_sixteen_lt byte), ih]
      show Except.ok (UInt8.ofNat (16 * (byte.toNat / 16) + byte.toNat % 16) :: bytes) = _
      rw [ofNat_digits]

@[simp] theorem decode_encode (bytes : Bytes) :
    decode (Utf8.encode (encode bytes)) = .ok bytes := by
  rw [encode_encode, decode, if_neg, decodeFrom_digits]
  rw [length_digits]
  omega

end Hex

/-! ## Identifiers -/

namespace Identifier

@[simp] theorem read_write {size : Nat} (tag : String) (bytes : Vector UInt8 size) :
    read tag size (write tag bytes) = .ok bytes := by
  have hdrop : dropTag (Utf8.encode tag) (Utf8.encode (write tag bytes)) =
      Utf8.encode (Hex.encode bytes.toList) := by
    rw [write, Utf8.encode_append, dropTag, if_pos (by simp), List.drop_left]
  rw [read, hdrop, Hex.decode_encode]
  simp only [Bytes.toVector?_toList]

theorem size_write {size : Nat} (tag : String) (bytes : Vector UInt8 size) :
    Utf8.size (write tag bytes) = Utf8.size tag + 2 * size := by
  rw [write, ← Utf8.length_encode, Utf8.encode_append, List.length_append, Utf8.length_encode,
    Hex.encode_encode, Hex.length_digits, Vector.length_toList]

end Identifier

@[simp] theorem Address.read_text (address : Address) : read address.text = .ok address := by
  rw [read, text, Identifier.read_write]
  rfl

theorem Address.size_text (address : Address) : Utf8.size address.text = 42 := by
  rw [text, Identifier.size_write]
  rfl

@[simp] theorem Token.read_text (token : Token) : read token.text = .ok token := by
  rw [read, text, Identifier.read_write]
  rfl

/-! ## Hashes -/

namespace Nibbles

theorem isBlank_digit : ∀ n < 16, isBlank (UInt8.ofNat (Hex.digit n).toNat) = false := by decide

theorem read?_digits (bytes : Bytes) : read? (bytes.flatMap Hex.digitBytes) = some bytes := by
  have hdigits : digits? (bytes.flatMap Hex.digitBytes) =
      some (bytes.flatMap fun byte => [byte.toNat / 16, byte.toNat % 16]) := by
    induction bytes with
    | nil => rfl
    | cons byte bytes ih =>
        simp [Hex.digitBytes, digits?, isBlank_digit, Hex.value?_digit, Hex.div_sixteen_lt,
          Hex.mod_sixteen_lt] at ih ⊢
        simp [ih]
  have hpairs : pairs (bytes.flatMap fun byte => [byte.toNat / 16, byte.toNat % 16]) = bytes := by
    clear hdigits
    induction bytes with
    | nil => rfl
    | cons byte bytes ih =>
        rw [List.flatMap_cons, List.cons_append, List.cons_append, List.nil_append, pairs, ih,
          Hex.ofNat_digits]
  have heven : ¬ (bytes.flatMap Hex.digitBytes).length % 2 = 1 := by
    rw [Hex.length_digits]
    omega
  rw [read?, hdigits]
  simp only [heven, if_false, Option.bind_eq_bind, Option.bind_some, hpairs, pure]

end Nibbles

namespace Hash

theorem ofStart_toBytes (hash : Hash) : ofStart hash.toBytes = hash := by
  have hbytes : Vector.ofFn (fun i : Fin 32 => hash.toBytes.getD i.val 0) = hash.bytes := by
    ext i hi
    simp [toBytes, List.getD_eq_getElem?_getD]
  exact congrArg Hash.mk hbytes

theorem encode_text (hash : Hash) :
    Utf8.encode hash.text = 48 :: 120 :: hash.toBytes.flatMap Hex.digitBytes := by
  have htag : Utf8.encode "0x" = [48, 120] := by decide
  rw [text, Utf8.encode_append, htag, digits, Hex.encode_encode, List.cons_append,
    List.cons_append, List.nil_append]

@[simp] theorem read?_text (hash : Hash) : read? hash.text = some hash := by
  have hlength : (hash.toBytes.flatMap Hex.digitBytes).length = 64 := by
    rw [Hex.length_digits, length_toBytes]
  rw [read?, encode_text, Nibbles.dropTag]
  simp only [hlength, if_pos, Nibbles.read?_digits, Option.map_some, ofStart_toBytes]

theorem size_text (hash : Hash) : Utf8.size hash.text = 66 := by
  rw [← Utf8.length_encode, encode_text, List.length_cons, List.length_cons, Hex.length_digits,
    length_toBytes]

end Hash

/-! ## Amounts -/

/-- A number of four bits for each digit has no more digits. -/
theorem length_digits_le {size n : Nat} (hsize : 0 < size) (h : n < Word.radix (4 * size)) :
    (digits 16 n).length ≤ size := by
  induction size generalizing n with
  | zero => cases hsize
  | succ size ih =>
      rw [digits]
      split
      · exact hsize
      · rename_i hn
        have hradix : Word.radix (4 * (size + 1)) = Word.radix (4 * size) * 16 :=
          Word.radix_add (4 * size) 4
        have hpos : 0 < size := by
          refine Nat.pos_of_ne_zero fun hzero => hn (.inl ?_)
          rwa [hzero] at h
        have hquotient : n / 16 < Word.radix (4 * size) := by
          rw [hradix] at h
          omega
        rw [List.length_append, List.length_singleton]
        exact Nat.succ_le_succ (ih hpos hquotient)

namespace Bytes

theorem ofLittleEndian_eq_ofDigits (bytes : Bytes) :
    ofLittleEndian bytes = ofDigits 256 (bytes.reverse.map UInt8.toNat) := by
  induction bytes with
  | nil => rfl
  | cons byte bytes ih =>
      rw [ofLittleEndian, ih, List.reverse_cons, List.map_append, ofDigits, ofDigits, ofDigitsAfter,
        ofDigitsAfter, List.foldl_append, Nat.add_comm]
      rfl

/-- The bytes of a big-endian number are its digits in base 256. -/
theorem ofBigEndian_eq_ofDigits (bytes : Bytes) :
    ofBigEndian bytes = ofDigits 256 (bytes.map UInt8.toNat) := by
  rw [ofBigEndian, ofLittleEndian_eq_ofDigits, List.reverse_reverse]

end Bytes

namespace Nibbles

/-- Two digits in base 16 are one in base 256. -/
theorem ofDigitsAfter_pairs {ds : List Nat} (hdigits : ∀ d ∈ ds, d < 16)
    (heven : ds.length % 2 = 0) (value : Nat) :
    ofDigitsAfter 256 value ((pairs ds).map UInt8.toNat) = ofDigitsAfter 16 value ds := by
  fun_induction pairs ds generalizing value with
  | case1 high low rest ih =>
      simp only [List.forall_mem_cons] at hdigits
      obtain ⟨hhigh, hlow, hrest⟩ := hdigits
      have hbyte : (UInt8.ofNat (16 * high + low)).toNat = 16 * high + low := by
        rw [UInt8.toNat_ofNat']
        exact Nat.mod_eq_of_lt (by omega)
      have hvalue : 256 * value + (16 * high + low) = 16 * (16 * value + high) + low := by omega
      have heven' : rest.length % 2 = 0 := by
        rw [List.length_cons, List.length_cons] at heven
        omega
      rw [List.map_cons, hbyte]
      show ofDigitsAfter 256 (256 * value + (16 * high + low)) _ = _
      rw [ih hrest heven', hvalue]
      rfl
  | case2 ds hds =>
      cases ds with
      | nil => rfl
      | cons d ds =>
          cases ds with
          | nil => cases heven
          | cons next ds => exact absurd rfl (hds d next ds)

/-- Digits of any number are read as the bytes of their value. -/
theorem exists_read?_digits {ds : List Nat} (h : ∀ d ∈ ds, d < 16) :
    ∃ bytes, read? (ds.map fun d => UInt8.ofNat (Hex.digit d).toNat) = some bytes ∧
      Bytes.ofBigEndian bytes = ofDigits 16 ds := by
  have hdigits : digits? (ds.map fun d => UInt8.ofNat (Hex.digit d).toNat) = some ds := by
    induction ds with
    | nil => rfl
    | cons d ds ih =>
        rw [List.forall_mem_cons] at h
        simp [digits?, isBlank_digit d h.1, Hex.value?_digit d h.1, ih h.2]
  rw [read?, hdigits, List.length_map]
  refine ⟨_, rfl, ?_⟩
  rw [Bytes.ofBigEndian_eq_ofDigits, ofDigits]
  split
  · rename_i hodd
    exact ofDigitsAfter_pairs (List.forall_mem_cons.mpr ⟨by decide, h⟩)
      (by rw [List.length_cons]; omega) 0
  · exact ofDigitsAfter_pairs h (by omega) 0

end Nibbles

namespace Amount

theorem encode_text (amount : Amount) :
    Utf8.encode amount.text =
      48 :: 120 :: (digits 16 amount.toNat).map fun d => UInt8.ofNat (Hex.digit d).toNat := by
  have htag : Utf8.encode "0x" = [48, 120] := by decide
  have hdigits : Utf8.encode (String.ofList ((digits 16 amount.toNat).map Hex.digit)) =
      (digits 16 amount.toNat).map fun d => UInt8.ofNat (Hex.digit d).toNat := by
    rw [Utf8.encode, String.toList_ofList, List.flatMap_map, List.map_eq_flatMap]
    exact List.flatMap_congr fun d hd =>
      Hex.utf8EncodeChar_digit d (lt_of_mem_digits (by decide) hd)
  rw [text, Utf8.encode_append, htag, hdigits]
  rfl

@[simp] theorem read?_text (amount : Amount) : read? amount.text = some amount := by
  have hlower : 1 ≤ (digits 16 amount.toNat).length :=
    List.length_pos_iff.mpr (digits_ne_nil _ _)
  have hupper : (digits 16 amount.toNat).length ≤ 64 :=
    length_digits_le (by decide) amount.toNat_lt
  obtain ⟨bytes, hread, hvalue⟩ :=
    Nibbles.exists_read?_digits fun d => lt_of_mem_digits (n := amount.toNat) (by decide)
  rw [read?, encode_text, Nibbles.dropTag]
  simp only [List.length_map, hlower, hupper, and_self, if_true, hread, Option.map_some, hvalue,
    ofDigits_digits, ofNat_toNat]

end Amount

end MomentumChain
