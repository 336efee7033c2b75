import MomentumChain.Proofs.Contract.CallData

/-!
# Packed calls

Packing and reading are inverse to each other (`packed_calls`).  A format with a single form for
each value has both directions (`Codec`): a packed call is read as the value that was packed, and
no other bytes can be read.  Truncated calls, calls of other methods and calls with something
after their parameters are among these other bytes.  Addresses and hashes have the first
direction only.

A text is packed with its length in eight bytes.  A text that needs more bytes for its length is
no parameter of a call.  The limit is part of the statement on texts and not of the format, which
would drop the high bytes of the length.
-/

namespace MomentumChain.Contract

namespace Format

variable {α : Type}

/-- A format that has a single form for each value that fits. -/
structure Canonical (format : Format α) (Fits : α → Prop) : Prop where
  readsBack : ∀ {value}, Fits value → format.ReadsBack value
  exact : format.Exact
  fits : ∀ {bytes value rest}, format.read? bytes = some (value, rest) → Fits value

theorem canonical_of_exact {format : Format α} (hreads : ∀ value, format.ReadsBack value)
    (hexact : format.Exact) : format.Canonical fun _ => True where
  readsBack := fun _ => hreads _
  exact := hexact
  fits := fun _ => trivial

theorem canonical_text : text.Canonical fun s => Utf8.size s < UInt64.size where
  readsBack := text_readsBack
  exact := text_exact
  fits := fun h => (text_read?_eq_some_iff.mp h).1

theorem Canonical.pair {β : Type} {first : Format α} {second : Format β} {P : α → Prop}
    {Q : β → Prop} (hfirst : first.Canonical P) (hsecond : second.Canonical Q) :
    (pair first second).Canonical fun v => P v.1 ∧ Q v.2 where
  readsBack := fun h => pair_readsBack (hfirst.readsBack h.1) (hsecond.readsBack h.2)
  exact := pair_exact hfirst.exact hsecond.exact
  fits := by
    intro bytes v rest h
    obtain ⟨⟨a, middle⟩, ha, h⟩ := Option.bind_eq_some_iff.mp h
    obtain ⟨⟨b, last⟩, hb, h⟩ := Option.bind_eq_some_iff.mp h
    cases h
    exact ⟨hfirst.fits ha, hsecond.fits hb⟩

end Format

/-- Under a signature, the readable calls are exactly the packed ones, each with the value that
was packed. -/
structure Codec {α : Type} (format : Format α) (signature : String) (Fits : α → Prop) : Prop where
  readable : ∀ data value,
    unpack? format signature data = some value ↔ Fits value ∧ data = pack format signature value
  unreadable : ∀ data,
    unpack? format signature data = none ↔ ∀ value, Fits value → data ≠ pack format signature value

theorem Format.Canonical.codec {α : Type} {format : Format α} {Fits : α → Prop}
    (h : format.Canonical Fits) (signature : String) : Codec format signature Fits := by
  have hreadable : ∀ data value, unpack? format signature data = some value ↔
      Fits value ∧ data = pack format signature value := by
    intro data value
    constructor
    · intro hunpack
      obtain ⟨parameters, rest, _, hread, _⟩ := unpack?_eq_some_iff.mp hunpack
      exact ⟨h.fits hread, eq_pack_of_unpack? h.exact hunpack⟩
    · rintro ⟨hfits, hdata⟩
      rw [hdata]
      exact unpack?_pack (h.readsBack hfits) signature
  refine ⟨hreadable, ?_⟩
  intro data
  rw [Option.eq_none_iff_forall_ne_some]
  constructor
  · intro hnone value hfits hdata
    exact hnone value ((hreadable data value).mpr ⟨hfits, hdata⟩)
  · intro hother value hsome
    obtain ⟨hfits, hdata⟩ := (hreadable data value).mp hsome
    exact hother value hfits hdata

/-- A packed call is read as the value that was packed.  Of calls without parameters, with a
number, with two texts and with the variables of the market, no others can be read. -/
theorem packed_calls (signature : String) :
    (∀ a, unpack? .address signature (pack .address signature a) = some a) ∧
      (∀ h, unpack? .hash signature (pack .hash signature h) = some h) ∧
      Codec .unit signature (fun _ => True) ∧
      Codec .word signature (fun _ => True) ∧
      Codec .plasmaVariables signature (fun _ => True) ∧
      Codec (.pair .text .text) signature fun v =>
        Utf8.size v.1 < UInt64.size ∧ Utf8.size v.2 < UInt64.size := by
  have hunit := Format.canonical_of_exact Format.unit_readsBack Format.unit_exact
  have hword := Format.canonical_of_exact Format.word_readsBack Format.word_exact
  have hvariables :=
    Format.canonical_of_exact Format.plasmaVariables_readsBack Format.plasmaVariables_exact
  have htexts := Format.canonical_text.pair Format.canonical_text
  refine ⟨?_, ?_, hunit.codec signature, hword.codec signature, hvariables.codec signature,
    htexts.codec signature⟩
  · intro a
    exact unpack?_pack (Format.address_readsBack a) signature
  · intro h
    exact unpack?_pack (Format.hash_readsBack h) signature

end MomentumChain.Contract
