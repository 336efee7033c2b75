import MomentumChain.Contract.CallData
import MomentumChain.Proofs.Text
import Mathlib.Data.Option.Basic

/-!
# Reading call data

Two things can be asked of a format.  What is written is read back, whatever follows
(`Format.ReadsBack`).  And a value is read from nothing else than what is written for it
(`Format.Exact`).  A call that is packed is readable in a format of the first kind, and a
readable call is the packed one in a format of the second.

Numbers, texts and their sequences are exact.  Addresses and hashes are not, for their texts can
be written in several ways.
-/

namespace MomentumChain

/-! ## Digits of a number -/

namespace Bytes

theorem littleEndian_ofLittleEndian (bytes : Bytes) :
    littleEndian bytes.length (ofLittleEndian bytes) = bytes := by
  induction bytes with
  | nil => rfl
  | cons byte bytes ih =>
      have hhead : UInt8.ofNat (byte.toNat + 256 * ofLittleEndian bytes) = byte := by
        apply UInt8.toNat_inj.mp
        have := byte.toNat_lt
        rw [UInt8.toNat_ofNat']
        omega
      have htail : (byte.toNat + 256 * ofLittleEndian bytes) / 256 = ofLittleEndian bytes := by
        have := byte.toNat_lt
        omega
      rw [List.length_cons, ofLittleEndian, littleEndian, hhead, htail, ih]

theorem ofLittleEndian_lt (bytes : Bytes) :
    ofLittleEndian bytes < Word.radix (8 * bytes.length) := by
  have h := ofLittleEndian_littleEndian bytes.length (ofLittleEndian bytes)
  rw [littleEndian_ofLittleEndian] at h
  rw [h]
  exact Nat.mod_lt _ (Word.radix_pos _)

end Bytes

namespace Contract

namespace Format

variable {α : Type}

/-- The value is read back from what is written, and what follows is left. -/
def ReadsBack (format : Format α) (value : α) : Prop :=
  ∀ rest, format.read? (format.write value ++ rest) = some (value, rest)

/-- A value is read from what is written for it and from nothing else. -/
def Exact (format : Format α) : Prop :=
  ∀ {bytes value rest}, format.read? bytes = some (value, rest) →
    bytes = format.write value ++ rest

theorem take?_append {size : Nat} {bytes : Bytes} (h : bytes.length = size) (rest : Bytes) :
    take? size (bytes ++ rest) = some (bytes, rest) := by
  subst h
  simp [take?]

theorem eq_append_of_take? {size : Nat} {bytes first rest : Bytes}
    (h : take? size bytes = some (first, rest)) :
    bytes = first ++ rest ∧ first.length = size := by
  simp only [take?, Option.ite_none_right_eq_some, Option.some.injEq, Prod.mk.injEq] at h
  obtain ⟨hsize, rfl, rfl⟩ := h
  exact ⟨(List.take_append_drop size bytes).symm, List.length_take_of_le hsize⟩

/-! ## What is written is read back -/

theorem unit_readsBack (v : Unit) : unit.ReadsBack v := fun _ => rfl

theorem word_readsBack (n : UInt64) : word.ReadsBack n := by
  intro rest
  have hdigits : Bytes.ofLittleEndian (Bytes.littleEndian 8 n.toNat) = n.toNat := by
    rw [Bytes.ofLittleEndian_littleEndian]
    exact Nat.mod_eq_of_lt n.toNat_lt
  simp [word, take?_append, hdigits]

theorem text_write (s : String) :
    text.write s = word.write (UInt64.ofNat (Utf8.size s)) ++ Utf8.encode s := rfl

theorem text_readsBack {s : String} (h : Utf8.size s < UInt64.size) : text.ReadsBack s := by
  intro rest
  have hsize : (UInt64.ofNat (Utf8.size s)).toNat = Utf8.size s :=
    UInt64.toNat_ofNat_of_lt' h
  have htake := take?_append (Utf8.length_encode s) rest
  have hword := word_readsBack (UInt64.ofNat (Utf8.size s)) (Utf8.encode s ++ rest)
  simp only [text, List.append_assoc, hword, Option.bind_eq_bind, Option.bind_some, hsize, htake,
    Utf8.decode?_encode, pure]

theorem address_readsBack (a : Address) : address.ReadsBack a := by
  intro rest
  have hsize : Utf8.size a.text < UInt64.size := by
    rw [Address.size_text]
    decide
  have htext := text_readsBack hsize rest
  simp only [address, htext, Option.bind_eq_bind, Option.bind_some, Address.read_text,
    Except.toOption, pure]

theorem hash_readsBack (h : Hash) : hash.ReadsBack h := by
  intro rest
  have hsize : Utf8.size h.text < UInt64.size := by
    rw [Hash.size_text]
    decide
  have htext := text_readsBack hsize rest
  simp only [hash, htext, Option.bind_eq_bind, Option.bind_some, Hash.read?_text, pure]

theorem pair_readsBack {β : Type} {first : Format α} {second : Format β} {v : α × β}
    (hfirst : first.ReadsBack v.1) (hsecond : second.ReadsBack v.2) :
    (pair first second).ReadsBack v := by
  intro rest
  have hread := hfirst (second.write v.2 ++ rest)
  simp only [pair, List.append_assoc, hread, Option.bind_eq_bind, Option.bind_some,
    hsecond rest, pure]

theorem plasmaVariables_readsBack (v : Plasma.Variables) : plasmaVariables.ReadsBack v := by
  intro rest
  have hword := fun n => word_readsBack n
  simp only [ReadsBack] at hword
  simp only [plasmaVariables, List.append_assoc, hword, Option.bind_eq_bind, Option.bind_some,
    byte, List.cons_append, List.nil_append, pure]

/-! ## Nothing else is read -/

theorem unit_exact : unit.Exact := by
  intro bytes v rest h
  cases h
  rfl

theorem word_exact : word.Exact := by
  intro bytes n rest h
  obtain ⟨⟨digits, left⟩, htake, hvalue⟩ := Option.bind_eq_some_iff.mp h
  obtain ⟨rfl, hlength⟩ := eq_append_of_take? htake
  simp only [pure, Option.some.injEq, Prod.mk.injEq] at hvalue
  obtain ⟨rfl, rfl⟩ := hvalue
  have hlt := Bytes.ofLittleEndian_lt digits
  rw [hlength] at hlt
  have hdigits := Bytes.littleEndian_ofLittleEndian digits
  rw [hlength] at hdigits
  show digits ++ left = Bytes.littleEndian 8 _ ++ left
  rw [UInt64.toNat_ofNat_of_lt' hlt, hdigits]

theorem byte_exact : byte.Exact := by
  intro bytes n rest h
  cases bytes with
  | nil => cases h
  | cons first left =>
      cases h
      rfl

/-- A text is read from its length and its bytes.  The length of a longer text has no eight
bytes. -/
theorem text_read?_eq_some_iff {bytes rest : Bytes} {s : String} :
    text.read? bytes = some (s, rest) ↔
      Utf8.size s < UInt64.size ∧ bytes = text.write s ++ rest := by
  constructor
  · intro h
    obtain ⟨⟨size, left⟩, hsize, h⟩ := Option.bind_eq_some_iff.mp h
    obtain ⟨⟨encoded, after⟩, htake, h⟩ := Option.bind_eq_some_iff.mp h
    obtain ⟨found, hdecode, h⟩ := Option.bind_eq_some_iff.mp h
    cases h
    obtain ⟨rfl, hlength⟩ := eq_append_of_take? htake
    obtain rfl := Utf8.eq_encode_of_decode? hdecode
    rw [Utf8.length_encode] at hlength
    refine ⟨hlength ▸ size.toNat_lt, ?_⟩
    rw [word_exact hsize, text_write, hlength, UInt64.ofNat_toNat, List.append_assoc]
  · rintro ⟨hsize, rfl⟩
    exact text_readsBack hsize rest

theorem text_exact : text.Exact := by
  intro bytes s rest h
  exact (text_read?_eq_some_iff.mp h).2

theorem pair_exact {β : Type} {first : Format α} {second : Format β} (hfirst : first.Exact)
    (hsecond : second.Exact) : (pair first second).Exact := by
  intro bytes v rest h
  obtain ⟨⟨a, middle⟩, ha, h⟩ := Option.bind_eq_some_iff.mp h
  obtain ⟨⟨b, last⟩, hb, h⟩ := Option.bind_eq_some_iff.mp h
  cases h
  rw [hfirst ha, hsecond hb]
  exact (List.append_assoc _ _ _).symm

theorem plasmaVariables_exact : plasmaVariables.Exact := by
  intro bytes v rest h
  obtain ⟨⟨budget, rest₁⟩, hbudget, h⟩ := Option.bind_eq_some_iff.mp h
  obtain ⟨⟨fusionTarget, rest₂⟩, hfusion, h⟩ := Option.bind_eq_some_iff.mp h
  obtain ⟨⟨workTarget, rest₃⟩, hwork, h⟩ := Option.bind_eq_some_iff.mp h
  obtain ⟨⟨changePercent, rest₄⟩, hpercent, h⟩ := Option.bind_eq_some_iff.mp h
  obtain ⟨⟨denominator, rest₅⟩, hdenominator, h⟩ := Option.bind_eq_some_iff.mp h
  cases h
  rw [word_exact hbudget, word_exact hfusion, word_exact hwork, byte_exact hpercent,
    byte_exact hdenominator]
  simp [plasmaVariables]

end Format

/-! ## Calls -/

@[simp] theorem length_selector (signature : String) :
    (selector signature).length = selectorSize := by
  simp [selector, selectorSize]

/-- A call is readable if its parameters can be read and are as long as they are written. -/
theorem unpack?_eq_some_iff {α : Type} {format : Format α} {signature : String} {data : Bytes}
    {value : α} :
    unpack? format signature data = some value ↔
      ∃ parameters rest, data = selector signature ++ parameters ∧
        format.read? parameters = some (value, rest) ∧
          (format.write value).length = parameters.length := by
  constructor
  · intro h
    obtain ⟨⟨called, parameters⟩, hsplit, h⟩ := Option.bind_eq_some_iff.mp h
    obtain ⟨_, hselector, h⟩ := Option.bind_eq_some_iff.mp h
    obtain ⟨⟨found, rest⟩, hread, h⟩ := Option.bind_eq_some_iff.mp h
    obtain ⟨_, hlength, hvalue⟩ := Option.bind_eq_some_iff.mp h
    rw [Option.guard_eq_some'] at hselector hlength
    cases hvalue
    refine ⟨parameters, rest, ?_, hread, hlength⟩
    rw [(Format.eq_append_of_take? hsplit).1, hselector]
  · rintro ⟨parameters, rest, hdata, hread, hlength⟩
    have hsplit : splitCall? data = some (selector signature, parameters) := by
      rw [hdata]
      exact Format.take?_append (length_selector signature) parameters
    simp [unpack?, hsplit, hread, hlength, guard]

theorem unpack?_pack {α : Type} {format : Format α} {value : α} (h : format.ReadsBack value)
    (signature : String) : unpack? format signature (pack format signature value) = some value := by
  have hread := h []
  rw [List.append_nil] at hread
  rw [unpack?_eq_some_iff, pack]
  exact ⟨format.write value, [], rfl, hread, rfl⟩

/-- A readable call is the packed one. -/
theorem eq_pack_of_unpack? {α : Type} {format : Format α} (h : format.Exact) {signature : String}
    {data : Bytes} {value : α} (hunpack : unpack? format signature data = some value) :
    data = pack format signature value := by
  obtain ⟨parameters, rest, hdata, hread, hlength⟩ := unpack?_eq_some_iff.mp hunpack
  have hparameters := h hread
  -- the lengths agree, so nothing is left over
  have hrest : rest = [] := by
    rw [hparameters, List.length_append] at hlength
    exact List.length_eq_zero_iff.mp (by omega)
  rw [hrest, List.append_nil] at hparameters
  rw [hdata, hparameters, pack]

end Contract

end MomentumChain
