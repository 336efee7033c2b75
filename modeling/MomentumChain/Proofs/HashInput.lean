import MomentumChain.Momentum
import Mathlib.Logic.Function.Basic

/-!
# What a hash stands for

The hash of a block, of the content of a momentum and of a momentum is the digest of a string of
bytes, its input.  An input is split in one way only, and its parts give back the fields
(`hash_inputs_commit`).

* All parts of the input of a block have a fixed length.  The data enters by its digest.
* The input of a content is a header after the other, all of one length.  So it also tells how
  many there are.
* The input of a momentum begins with the version, which tells whether prices stand at its end.
-/

namespace MomentumChain

/-! ## Fields -/

theorem Amount.toBytes_inj {a b : Amount} : a.toBytes = b.toBytes ↔ a = b := by
  refine ⟨fun h => Amount.toNat_inj.mp (Bytes.bigEndian_injOn ?_ ?_ h), fun h => h ▸ rfl⟩
  · exact a.toNat_lt
  · exact b.toNat_lt

@[simp] theorem Amount.length_toBytes (amount : Amount) : amount.toBytes.length = 32 := by
  simp [toBytes]

theorem Block.Kind.code_inj {a b : Block.Kind} : a.code = b.code ↔ a = b := by
  cases a <;> cases b <;> decide

theorem Header.toBytes_inj {a b : Header} : a.toBytes = b.toBytes ↔ a = b := by
  simp (disch := simp) only [toBytes, List.append_eq_append_iff_of_size_eq_right,
    Address.toBytes_inj, Bytes.ofWord_inj, Hash.toBytes_inj]
  cases a
  cases b
  simp [and_assoc]

@[simp] theorem Header.length_toBytes (header : Header) : header.toBytes.length = 60 := by
  simp [toBytes]

/-! ## Blocks -/

/-- Blocks have one input exactly if they agree in every field but the hash and the data, and in
the digest of the data. -/
theorem Block.hashInput_eq_iff {a b : Block} :
    a.hashInput = b.hashInput ↔
      { a with hash := b.hash, data := b.data } = b ∧
        Hash.ofMessage a.data = Hash.ofMessage b.data := by
  simp (disch := simp) only [hashInput, List.append_eq_append_iff_of_size_eq_right,
    List.cons.injEq, and_true, Kind.code_inj, Hash.toBytes_inj, Bytes.ofWord_inj,
    Address.toBytes_inj, Amount.toBytes_inj, Token.toBytes_inj, Vector.toList_inj]
  cases a
  cases b
  simp only [mk.injEq, true_and, and_assoc]
  constructor
  · rintro ⟨hkind, hprevious, hheight, haddress, hrecipient, hamount, htoken, hfrom, hdata, hrest⟩
    exact ⟨hkind, hprevious, hheight, haddress, hrecipient, hamount, htoken, hfrom,
      hrest.1, hrest.2.1, hrest.2.2.1, hrest.2.2.2, hdata⟩
  · rintro ⟨hkind, hprevious, hheight, haddress, hrecipient, hamount, htoken, hfrom,
      hfused, hdifficulty, hnonce, hbase, hdata⟩
    exact ⟨hkind, hprevious, hheight, haddress, hrecipient, hamount, htoken, hfrom, hdata,
      hfused, hdifficulty, hnonce, hbase⟩

/-! ## Momentums -/

namespace Momentum

@[simp] theorem length_contentInput (content : List Header) :
    (contentInput content).length = content.length * 60 := by
  simp only [contentInput, List.length_flatMap, Header.length_toBytes, List.map_const',
    List.sum_replicate_nat]

theorem contentInput_injective : Function.Injective contentInput := by
  intro content
  induction content with
  | nil =>
      intro others h
      have hlength := congrArg List.length h
      rw [length_contentInput, length_contentInput, List.length_nil] at hlength
      exact (List.eq_nil_of_length_eq_zero (by omega)).symm
  | cons header rest ih =>
      intro others h
      cases others with
      | nil =>
          have hlength := congrArg List.length h
          rw [length_contentInput, length_contentInput, List.length_cons, List.length_nil] at hlength
          omega
      | cons other others =>
          obtain ⟨hheader, hrest⟩ := List.append_inj h (by simp)
          rw [Header.toBytes_inj.mp hheader, ih hrest]

/-- Momentums have one input exactly if they agree in the version and in everything that
momentums of this version record.  The content counts by its digest. -/
theorem hashInput_eq_iff {a b : Momentum} :
    a.hashInput = b.hashInput ↔
      a.version = b.version ∧ a.chainId = b.chainId ∧ a.previousHash = b.previousHash ∧
        a.height = b.height ∧ a.timestamp = b.timestamp ∧
        contentDigest a.content = contentDigest b.content ∧
        (dynamicVersion ≤ a.version →
          a.nextFusionPrice = b.nextFusionPrice ∧ a.nextWorkPrice = b.nextWorkPrice) := by
  simp (disch := simp) only [hashInput, List.append_assoc,
    List.append_eq_append_iff_of_size_eq_left, Bytes.ofWord_inj, Hash.toBytes_inj]
  refine and_congr_right fun hversion => ?_
  rw [← hversion]
  iterate 5 refine and_congr_right fun _ => ?_
  split
  · case isTrue hdynamic =>
      rw [List.append_eq_append_iff_of_size_eq_left (by simp), Bytes.ofWord_inj, Bytes.ofWord_inj]
      exact ⟨fun h _ => h, fun h => h hdynamic⟩
  · case isFalse hlegacy => exact ⟨fun _ h => absurd h hlegacy, fun _ => rfl⟩

end Momentum

/-- Inputs commit to what they are made of: the input of a block to every field but the hash, and
to the data by its digest; the input of a content to the list of headers; the input of a momentum
to every field but the hash, to the content by its digest, and to the prices exactly from the
version on that records them. -/
theorem hash_inputs_commit :
    (∀ a b : Block, a.hashInput = b.hashInput ↔
      { a with hash := b.hash, data := b.data } = b ∧
        Hash.ofMessage a.data = Hash.ofMessage b.data) ∧
    (∀ a b, Momentum.contentInput a = Momentum.contentInput b ↔ a = b) ∧
    (∀ a b : Momentum, a.hashInput = b.hashInput ↔
      a.version = b.version ∧ a.chainId = b.chainId ∧ a.previousHash = b.previousHash ∧
        a.height = b.height ∧ a.timestamp = b.timestamp ∧
        Momentum.contentDigest a.content = Momentum.contentDigest b.content ∧
        (Momentum.dynamicVersion ≤ a.version →
          a.nextFusionPrice = b.nextFusionPrice ∧ a.nextWorkPrice = b.nextWorkPrice)) ∧
    ∀ (momentum : Momentum) (fusionPrice workPrice : UInt64),
      { momentum with nextFusionPrice := fusionPrice, nextWorkPrice := workPrice }.hashInput =
          momentum.hashInput ↔
        momentum.version < Momentum.dynamicVersion ∨
          fusionPrice = momentum.nextFusionPrice ∧ workPrice = momentum.nextWorkPrice := by
  refine ⟨fun _ _ => Block.hashInput_eq_iff, fun _ _ => Momentum.contentInput_injective.eq_iff,
    fun _ _ => Momentum.hashInput_eq_iff, fun momentum fusionPrice workPrice => ?_⟩
  rw [Momentum.hashInput_eq_iff, ← UInt64.not_le, ← Decidable.imp_iff_not_or]
  simp only [true_and]

end MomentumChain
