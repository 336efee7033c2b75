import Mathlib
import MomentumChain.Proofs.Plasma.PriceMove

/-!
# The price of an unused resource

A round is idle for a resource if less of it was used than the target and if the price may
change by a percentage at all.  In an idle round a price above the minimum falls by one unit at
least, whatever the price, the distance to the target and the damping are: a fall is rounded up,
and the lower bound of the round lies below the price too (`exactNextPrice_lt`).  So integer
rounding never holds a price above the minimum.

`unused_price_settles` carries this over a run of idle rounds.  Governance may change the
variables between rounds, so every round has its own.  The price has as many rounds to reach the
minimum as it has units above it, and that bound is met by the smallest moves
(`unused_price_settles_slowly`).
-/

namespace MomentumChain.Plasma

/-- What the next price of a resource depends on besides the price. -/
structure PriceRound where
  /-- Plasma bought with the resource. -/
  used : UInt64
  target : UInt64
  changePercent : UInt8
  denominator : UInt8

namespace PriceRound

/-- The price after the round. -/
def next (round : PriceRound) (price : UInt64) : Checked UInt64 :=
  nextPrice price round.used round.target round.changePercent round.denominator

/-- The resource was used less than it is meant to be, and its price may change. -/
structure Idle (round : PriceRound) : Prop where
  used_lt_target : round.used < round.target
  changePercent_pos : 1 ≤ round.changePercent

/-- The price after the first `n` rounds. -/
def priceOver (rounds : ℕ → PriceRound) (start : UInt64) : ℕ → Checked UInt64
  | 0 => .ok start
  | n + 1 => do (rounds n).next (← priceOver rounds start n)

end PriceRound

/-! ## One round -/

section

variable {price used target percent divisor : ℕ}

/-- A fall is rounded up, so it is never nothing. -/
theorem exactMove_lt (hprice : 0 < price) (hused : used < target) (hdivisor : 0 < divisor) :
    exactMove price used target divisor < price := by
  have hfall : 0 < (price * (target - used) + (divisor - 1)) / divisor := by
    have hmul : 0 < price * (target - used) := Nat.mul_pos hprice (by omega)
    exact Nat.div_pos (by omega) hdivisor
  rw [exactMove, if_neg (by omega)]
  omega

/-- The lower bound of a round lies below the price. -/
theorem lower_lt (hprice : 0 < price) (hpercent : 1 ≤ percent) :
    price * (100 - percent) / 100 < price := by
  refine Nat.div_lt_of_lt_mul ?_
  rw [Nat.mul_comm 100]
  exact Nat.mul_lt_mul_of_pos_left (by omega) hprice

theorem exactNextPrice_lt (hprice : minPrice.toNat < price) (hused : used < target)
    (hpercent : 1 ≤ percent) (hdivisor : 0 < divisor) :
    exactNextPrice price used target percent divisor < price := by
  have hmove := exactMove_lt (by omega : 0 < price) hused hdivisor
  have hlower := lower_lt (by omega : 0 < price) hpercent
  simp only [exactNextPrice]
  omega

end

namespace PriceRound

section

variable {round : PriceRound} {price : UInt64}

/-- An idle round takes a price above the minimum down, and not below the minimum. -/
theorem Idle.exists_next (h : round.Idle) (hmin : minPrice ≤ price) :
    ∃ next, round.next price = .ok next ∧ minPrice ≤ next ∧ next ≤ price ∧
      (minPrice < price → next < price) := by
  obtain ⟨next, hnext, hexact⟩ := nextPrice_toNat price round.used round.target
    round.changePercent round.denominator
  have hmove := nextPrice_move hnext
  have hused := UInt64.lt_iff_toNat_lt.mp h.used_lt_target
  have hpercent := UInt8.le_iff_toNat_le.mp h.changePercent_pos
  rw [Nat.max_eq_left (UInt64.le_iff_toNat_le.mp hmin)] at hexact hmove
  refine ⟨next, hnext, UInt64.le_iff_toNat_le.mpr hmove.least, ?_, fun habove => ?_⟩
  · refine UInt64.le_iff_toNat_le.mpr (Nat.le_of_not_lt fun hrise => ?_)
    exact Nat.lt_asymm (hmove.rise hrise) hused
  · rw [UInt64.lt_iff_toNat_lt] at habove ⊢
    rw [hexact]
    exact exactNextPrice_lt habove hused hpercent (damping_pos ..)

/-- No price above the minimum is a fixed point of an idle round. -/
theorem Idle.next_ne (h : round.Idle) (habove : minPrice < price) :
    round.next price ≠ .ok price := by
  obtain ⟨next, hnext, _, _, hfalls⟩ := h.exists_next (UInt64.le_of_lt habove)
  rw [hnext]
  intro heq
  cases heq
  exact UInt64.lt_irrefl _ (hfalls habove)

end

/-! ## A run of rounds -/

/-- What becomes of the price of a resource that is not used. -/
structure Settles (start : UInt64) (price : ℕ → UInt64) : Prop where
  /-- It never rises. -/
  descends : ∀ m n, m ≤ n → price n ≤ price m
  /-- Above the minimum it falls in every round. -/
  falls : ∀ n, minPrice < price n → price (n + 1) < price n
  /-- It has as many rounds to reach the minimum as it has units above it. -/
  reaches : ∀ n, start.toNat - minPrice.toNat ≤ n → price n = minPrice
  /-- It stays at the minimum. -/
  stays : ∀ m n, m ≤ n → price m = minPrice → price n = minPrice

section

variable {start : UInt64} {price : ℕ → UInt64}

theorem descends_of_steps (hle : ∀ n, price (n + 1) ≤ price n) {m n : ℕ} (hmn : m ≤ n) :
    price n ≤ price m := by
  have hanti : Antitone fun n => (price n).toNat :=
    antitone_nat_of_succ_le fun n => UInt64.le_iff_toNat_le.mp (hle n)
  exact UInt64.le_iff_toNat_le.mpr (hanti hmn)

/-- Every round takes one unit off what is above the minimum. -/
theorem toNat_le_of_steps (hstart : price 0 = start) (hle : ∀ n, price (n + 1) ≤ price n)
    (hfalls : ∀ n, minPrice < price n → price (n + 1) < price n) (n : ℕ) :
    (price n).toNat ≤ max minPrice.toNat (start.toNat - n) := by
  induction n with
  | zero =>
      rw [hstart]
      omega
  | succ n ih =>
      have hstep := UInt64.le_iff_toNat_le.mp (hle n)
      have hfall := hfalls n
      rw [UInt64.lt_iff_toNat_lt, UInt64.lt_iff_toNat_lt] at hfall
      omega

/-- A sequence settles if each step does to it what an idle round does to a price. -/
theorem settles_of_steps (hstart : price 0 = start) (hmin : ∀ n, minPrice ≤ price n)
    (hle : ∀ n, price (n + 1) ≤ price n)
    (hfalls : ∀ n, minPrice < price n → price (n + 1) < price n) : Settles start price := by
  constructor
  case descends => exact fun m n hmn => descends_of_steps hle hmn
  case falls => exact hfalls
  case reaches =>
    intro n hn
    have hbound := toNat_le_of_steps hstart hle hfalls n
    exact UInt64.le_antisymm (UInt64.le_iff_toNat_le.mpr (by omega)) (hmin n)
  case stays =>
    intro m n hmn hm
    have hn := descends_of_steps hle hmn
    rw [hm] at hn
    exact UInt64.le_antisymm hn (hmin n)

end

variable {rounds : ℕ → PriceRound} {start : UInt64}

theorem exists_priceOver (hidle : ∀ n, (rounds n).Idle) (hstart : minPrice ≤ start) (n : ℕ) :
    ∃ price, priceOver rounds start n = .ok price ∧ minPrice ≤ price := by
  induction n with
  | zero => exact ⟨start, rfl, hstart⟩
  | succ n ih =>
      obtain ⟨price, hprice, hmin⟩ := ih
      obtain ⟨next, hnext, hleast, _⟩ := (hidle n).exists_next hmin
      refine ⟨next, ?_, hleast⟩
      rw [priceOver, hprice]
      exact hnext

/-- Over idle rounds there is a price after every round, and it falls to the minimum and stays
there.  A price above the minimum is a fixed point of none of the rounds. -/
theorem unused_price_settles (hidle : ∀ n, (rounds n).Idle) (hstart : minPrice ≤ start) :
    (∃ price : ℕ → UInt64, (∀ n, priceOver rounds start n = .ok (price n)) ∧
      Settles start price) ∧
      ∀ n price, minPrice < price → (rounds n).next price ≠ .ok price := by
  refine ⟨?_, fun n price habove => (hidle n).next_ne habove⟩
  choose price hprice hmin using exists_priceOver hidle hstart
  have hstep (n : ℕ) : price (n + 1) ≤ price n ∧
      (minPrice < price n → price (n + 1) < price n) := by
    obtain ⟨next, hnext, _, hle, hfalls⟩ := (hidle n).exists_next (hmin n)
    have hsucc := hprice (n + 1)
    rw [priceOver, hprice n] at hsucc
    cases hnext.symm.trans hsucc
    exact ⟨hle, hfalls⟩
  have hzero : price 0 = start := by
    cases hprice 0
    rfl
  exact ⟨price, hprice, settles_of_steps hzero hmin (fun n => (hstep n).1) fun n => (hstep n).2⟩

/-- One unit less is used than the target, and the move is damped as far as it can be. -/
def slowest : PriceRound := ⟨1049999, 1050000, 1, 255⟩

/-- Three units above the minimum take three rounds. -/
theorem unused_price_settles_slowly :
    slowest.Idle ∧ priceOver (fun _ => slowest) 1003 2 = .ok 1001 ∧
      ∀ n, 3 ≤ n → priceOver (fun _ => slowest) 1003 n = .ok 1000 := by
  have hidle : slowest.Idle := ⟨by decide, by decide⟩
  obtain ⟨⟨price, hprice, hsettles⟩, _⟩ :=
    unused_price_settles (fun _ => hidle) (by decide : minPrice ≤ 1003)
  refine ⟨hidle, by rfl, fun n hn => ?_⟩
  rw [hprice n, hsettles.reaches n hn]
  rfl

end PriceRound

end MomentumChain.Plasma
