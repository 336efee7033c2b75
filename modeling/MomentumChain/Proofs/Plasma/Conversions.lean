import Mathlib
import MomentumChain.Plasma.Units

/-!
# What difficulty and fused coins buy

Plasma is bought with a proof of work or with fused coins.  The two conversions round down and
stop at a cap.

*Difficulty.*  The cap on difficulty is the cap on plasma times the rate, so the conversion is the
smaller of a quotient and the cap (`toNat_ofDifficulty`), with no seam where the one takes over
from the other.  Therefore it is adjoint to the difficulty required for a plasma
(`difficulty_adjunction`): a difficulty buys a plasma exactly if it is not below the required
one.

*Fused coins.*  Below the cap on the amount the plasma is linear in the whole fusion units.  But
the plasma from the cap on is the number of units times the *cost* of a unit in place of its
plasma, far above what the units are worth.  So the plasma jumps at the cap, and it exceeds the
plasma of the units until there are enough of them (`ofFused_capped_iff`).
-/

namespace MomentumChain.Plasma

/-! ## Difficulty -/

theorem difficultyPerUnit_pos : 0 < difficultyPerUnit.toNat := by decide

theorem toNat_maxDifficulty :
    maxDifficulty.toNat = maxWorkPlasma.toNat * difficultyPerUnit.toNat := by decide

/-- The plasma of a difficulty is one minimum, below and above the cap. -/
theorem toNat_ofDifficulty (difficulty : UInt64) :
    (ofDifficulty difficulty).toNat =
      min (difficulty.toNat / difficultyPerUnit.toNat) maxWorkPlasma.toNat := by
  unfold ofDifficulty
  split
  · rename_i hzero
    rw [hzero]
    decide
  · split
    · rename_i habove
      rw [UInt64.lt_iff_toNat_lt, toNat_maxDifficulty] at habove
      rw [min_eq_right ((Nat.le_div_iff_mul_le difficultyPerUnit_pos).mpr habove.le)]
    · rename_i hbelow
      rw [UInt64.not_lt, UInt64.le_iff_toNat_le, toNat_maxDifficulty, Nat.mul_comm] at hbelow
      rw [UInt64.toNat_div, min_eq_left (Nat.div_le_of_le_mul hbelow)]

/-- A difficulty buys what its quotient by the rate amounts to, as far as the cap. -/
theorem le_ofDifficulty_iff {plasma difficulty : UInt64} (h : plasma ≤ maxWorkPlasma) :
    plasma ≤ ofDifficulty difficulty ↔
      plasma.toNat * difficultyPerUnit.toNat ≤ difficulty.toNat := by
  rw [UInt64.le_iff_toNat_le] at h
  rw [UInt64.le_iff_toNat_le, toNat_ofDifficulty, le_min_iff,
    Nat.le_div_iff_mul_le difficultyPerUnit_pos, and_iff_left h]

theorem ofDifficulty_mono {a b : UInt64} (h : a ≤ b) : ofDifficulty a ≤ ofDifficulty b := by
  rw [UInt64.le_iff_toNat_le] at h
  rw [UInt64.le_iff_toNat_le, toNat_ofDifficulty, toNat_ofDifficulty]
  exact min_le_min_right _ (Nat.div_le_div_right h)

/-- Up to the cap the required difficulty fits in a word. -/
theorem difficultyFor_of_le {plasma : UInt64} (h : plasma ≤ maxWorkPlasma) :
    difficultyFor plasma = .ok (.ok (plasma * difficultyPerUnit)) ∧
      (plasma * difficultyPerUnit).toNat = plasma.toNat * difficultyPerUnit.toNat := by
  have hfits : plasma.toNat * difficultyPerUnit.toNat < UInt64.size := by
    refine Nat.lt_of_le_of_lt (Nat.mul_le_mul_right _ (UInt64.le_iff_toNat_le.mp h)) ?_
    rw [← toNat_maxDifficulty]
    exact maxDifficulty.toNat_lt
  refine ⟨?_, ?_⟩
  · rw [difficultyFor, if_neg (UInt64.not_lt.mpr h), Word.mul64_of_lt hfits]
    rfl
  · rw [UInt64.toNat_mul]
    exact Nat.mod_eq_of_lt hfits

theorem difficultyFor_of_lt {plasma : UInt64} (h : maxWorkPlasma < plasma) :
    difficultyFor plasma = .ok (.error (.workPlasmaTooHigh plasma)) :=
  if_pos h

theorem difficultyFor_eq_ok_iff {plasma required : UInt64} :
    difficultyFor plasma = .ok (.ok required) ↔
      plasma ≤ maxWorkPlasma ∧ required.toNat = plasma.toNat * difficultyPerUnit.toNat := by
  by_cases h : plasma ≤ maxWorkPlasma
  · obtain ⟨hrequired, hexact⟩ := difficultyFor_of_le h
    rw [hrequired, Except.ok.injEq, Except.ok.injEq, and_iff_right h, ← hexact,
      UInt64.toNat_inj, eq_comm]
  · rw [difficultyFor_of_lt (UInt64.not_le.mp h)]
    simp [h]

/-- The plasma of a difficulty and the difficulty of a plasma belong together. -/
structure Adjunction : Prop where
  /-- Exactly the plasma up to the cap has a required difficulty. -/
  granted : ∀ plasma, (∃ required, difficultyFor plasma = .ok (.ok required)) ↔
    plasma ≤ maxWorkPlasma
  /-- All other plasma is refused, and nothing overflows. -/
  refused : ∀ plasma, difficultyFor plasma = .ok (.error (.workPlasmaTooHigh plasma)) ↔
    maxWorkPlasma < plasma
  /-- The product with the rate fits in a word. -/
  exact : ∀ plasma required, difficultyFor plasma = .ok (.ok required) →
    required.toNat = plasma.toNat * difficultyPerUnit.toNat
  /-- What buys a plasma is what is not below its required difficulty. -/
  adjoint : ∀ plasma required, difficultyFor plasma = .ok (.ok required) →
    ∀ difficulty, plasma ≤ ofDifficulty difficulty ↔ required ≤ difficulty
  least : ∀ plasma required, difficultyFor plasma = .ok (.ok required) →
    IsLeast {difficulty | plasma ≤ ofDifficulty difficulty} required
  /-- Nothing is lost on the way there and back. -/
  undone : ∀ plasma required, difficultyFor plasma = .ok (.ok required) →
    ofDifficulty required = plasma
  mono : ∀ a b, a ≤ b → ofDifficulty a ≤ ofDifficulty b

theorem le_ofDifficulty_iff_required_le {plasma required : UInt64}
    (h : difficultyFor plasma = .ok (.ok required)) (difficulty : UInt64) :
    plasma ≤ ofDifficulty difficulty ↔ required ≤ difficulty := by
  obtain ⟨hle, hexact⟩ := difficultyFor_eq_ok_iff.mp h
  rw [le_ofDifficulty_iff hle, UInt64.le_iff_toNat_le, hexact]

/-- The required difficulty of a plasma buys this plasma. -/
theorem ofDifficulty_required {plasma required : UInt64}
    (h : difficultyFor plasma = .ok (.ok required)) : ofDifficulty required = plasma := by
  obtain ⟨hle, hexact⟩ := difficultyFor_eq_ok_iff.mp h
  rw [UInt64.le_iff_toNat_le] at hle
  rw [← UInt64.toNat_inj, toNat_ofDifficulty, hexact,
    Nat.mul_div_cancel _ difficultyPerUnit_pos, min_eq_left hle]

/-- The conversions between difficulty and plasma are adjoint. -/
theorem difficulty_adjunction : Adjunction where
  granted plasma := by
    refine ⟨fun ⟨required, hrequired⟩ => (difficultyFor_eq_ok_iff.mp hrequired).1, fun h => ?_⟩
    exact ⟨_, (difficultyFor_of_le h).1⟩
  refused plasma := by
    refine ⟨fun hrefused => ?_, difficultyFor_of_lt⟩
    rw [← UInt64.not_le]
    intro h
    rw [(difficultyFor_of_le h).1] at hrefused
    cases hrefused
  exact _ _ h := (difficultyFor_eq_ok_iff.mp h).2
  adjoint _ _ := le_ofDifficulty_iff_required_le
  least plasma required h :=
    ⟨(le_ofDifficulty_iff_required_le h required).mpr (UInt64.le_refl required),
      fun difficulty => (le_ofDifficulty_iff_required_le h difficulty).mp⟩
  undone _ _ := ofDifficulty_required
  mono _ _ := ofDifficulty_mono

-- the difficulty of the largest plasma is the last one before the cap takes over
example : difficultyFor maxWorkPlasma = .ok (.ok maxDifficulty) ∧
    ofDifficulty (maxDifficulty - 1) = maxWorkPlasma - 1 ∧
    ofDifficulty Word.max64 = maxWorkPlasma := by decide

/-! ## Fused coins -/

/-- The plasma of the whole fusion units in an amount. -/
def unitPlasma (amount : ℕ) : ℕ := plasmaPerFusionUnit.toNat * (amount / fusionUnitCost.toNat)

/-- The number of fusion units from which their plasma is not below the cap on plasma. -/
def coveringUnits : ℕ := maxFusionPlasma.toNat ⌈/⌉ plasmaPerFusionUnit.toNat

theorem unitPlasma_mono {a b : ℕ} (h : a ≤ b) : unitPlasma a ≤ unitPlasma b :=
  Nat.mul_le_mul_left _ (Nat.div_le_div_right h)

theorem le_unitPlasma_iff {amount : ℕ} :
    maxFusionPlasma.toNat ≤ unitPlasma amount ↔
      coveringUnits ≤ amount / fusionUnitCost.toNat := by
  have hpos : 0 < plasmaPerFusionUnit.toNat := by decide
  rw [unitPlasma, coveringUnits, ceilDiv_le_iff_le_mul hpos]

/-- The units of the largest amount are worth far less than the cap on plasma. -/
theorem unitPlasma_maxFusedAmount_lt :
    unitPlasma maxFusedAmount.toNat < maxFusionPlasma.toNat := by decide

/-- Below the cap the units and their plasma fit in a word. -/
theorem ofFused_of_lt {amount : Amount} (h : amount.toNat < maxFusedAmount.toNat) :
    ∃ granted, ofFused amount = .ok granted ∧ granted.toNat = unitPlasma amount.toNat := by
  have hplasma : unitPlasma amount.toNat < UInt64.size :=
    (unitPlasma_mono h.le).trans_lt (unitPlasma_maxFusedAmount_lt.trans maxFusionPlasma.toNat_lt)
  unfold ofFused
  split
  · rename_i hzero
    rw [hzero]
    exact ⟨0, rfl, by decide⟩
  · have hunits : (UInt64.ofNat (amount.toNat / fusionUnitCost.toNat)).toNat =
        amount.toNat / fusionUnitCost.toNat := by
      rw [UInt64.toNat_ofNat', Nat.mod_eq_of_lt]
      exact ((Nat.div_le_self _ _).trans h.le).trans_lt maxFusedAmount.toNat_lt
    rw [unitPlasma, Nat.mul_comm, ← hunits] at hplasma
    rw [if_neg (not_le.mpr h), Word.mul64_of_lt hplasma]
    refine ⟨_, rfl, ?_⟩
    rw [UInt64.toNat_mul, Nat.mod_eq_of_lt hplasma, hunits, unitPlasma, Nat.mul_comm]

theorem ofFused_of_le {amount : Amount} (h : maxFusedAmount.toNat ≤ amount.toNat) :
    ofFused amount = .ok maxFusionPlasma := by
  have hcap : 0 < maxFusedAmount.toNat := by decide
  rw [ofFused, if_neg (by omega), if_pos h]

/-- Every amount is granted plasma. -/
theorem exists_ofFused (amount : Amount) :
    ∃ granted, ofFused amount = .ok granted ∧
      granted.toNat = if amount.toNat < maxFusedAmount.toNat then unitPlasma amount.toNat
        else maxFusionPlasma.toNat := by
  by_cases h : amount.toNat < maxFusedAmount.toNat
  · rw [if_pos h]
    exact ofFused_of_lt h
  · rw [if_neg h]
    exact ⟨_, ofFused_of_le (not_lt.mp h), rfl⟩

/-- Every amount is granted plasma, which is that of its units below the cap and constant from
there on.  It is the plasma of the units in the amount, as far as the cap, exactly below the cap.
It is no more than the plasma of all units in the amount exactly below the cap and from the
covering number of units on. -/
theorem ofFused_capped_iff (amount : Amount) :
    ∃ granted, ofFused amount = .ok granted ∧
      (granted.toNat = if amount.toNat < maxFusedAmount.toNat then unitPlasma amount.toNat
        else maxFusionPlasma.toNat) ∧
      (granted.toNat = unitPlasma (min amount.toNat maxFusedAmount.toNat) ↔
        amount.toNat < maxFusedAmount.toNat) ∧
      (granted.toNat ≤ unitPlasma amount.toNat ↔
        amount.toNat < maxFusedAmount.toNat ∨
          coveringUnits ≤ amount.toNat / fusionUnitCost.toNat) := by
  obtain ⟨granted, hgranted, hexact⟩ := exists_ofFused amount
  refine ⟨granted, hgranted, hexact, ?_⟩
  by_cases h : amount.toNat < maxFusedAmount.toNat
  · rw [hexact, if_pos h, min_eq_left h.le]
    exact ⟨iff_of_true rfl h, iff_of_true le_rfl (.inl h)⟩
  · rw [hexact, if_neg h, min_eq_right (not_lt.mp h), le_unitPlasma_iff, or_iff_right h]
    exact ⟨iff_of_false unitPlasma_maxFusedAmount_lt.ne' h, Iff.rfl⟩

-- the covering number of units is more than 47 thousand times the number at the cap
example : coveringUnits = 4761904761905 ∧ maxFusionUnits = 100000000 := by decide

/-- One base unit below the cap the plasma is that of the units.  At the cap the units are worth
210 000 000 000, and 10 000 000 000 000 000 are granted. -/
theorem ofFused_jumps :
    ofFused (.ofNat 10000000000000000) = .ok 10000000000000000 ∧
      unitPlasma (min 10000000000000000 maxFusedAmount.toNat) = 210000000000 ∧
      ofFused (.ofNat 9999999999999999) = .ok 209999997900 := by decide

end MomentumChain.Plasma
