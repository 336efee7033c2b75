/-!
# Words

Balances, heights and prices live in words of a fixed width.  Three kinds of
arithmetic act on them.

* *Wrapping* arithmetic drops the carry.  It is the arithmetic of `UInt64`
  itself and is used for counters.
* *Saturating* arithmetic stops at the ends of the word (`satAdd`, `satSub`,
  `satMul`).
* *Checked* arithmetic refuses a result that does not fit.  A refusal is an
  `ArithmeticFault`, and `Checked` is the type of a computation that may meet
  one.

Checked operations are stated on natural numbers and take the width of the
word.  A computation over several widths is then a single expression over
natural numbers, and its result is exact whenever there is one.  The lemmas
below say so: each operation succeeds exactly when the exact result fits.
-/

namespace MomentumChain

/-- Why a checked operation has no result. -/
inductive ArithmeticFault where
  /-- The exact result is above the largest value of the word. -/
  | overflow
  /-- The exact result is below zero. -/
  | underflow
  /-- The divisor is zero. -/
  | zeroDivisor
  /-- The lower bound of a range is above its upper bound. -/
  | crossedBounds
deriving DecidableEq, Repr

/-- A computation that meets an arithmetic fault or has an exact result. -/
abbrev Checked (α : Type) : Type := Except ArithmeticFault α

/-- Why a step has no result. -/
inductive Failure (ε : Type) where
  /-- An error of the step itself. -/
  | error (error : ε)
  /-- An arithmetic fault on the way. -/
  | fault (fault : ArithmeticFault)
deriving DecidableEq, Repr

namespace Failure

/-- A checked computation as a part of a step. -/
def ofChecked {ε α : Type} : Checked α → Except (Failure ε) α
  | .ok a => .ok a
  | .error e => .error (.fault e)

/-- A computation with errors of the step as a part of it. -/
def ofExcept {ε α : Type} : Except ε α → Except (Failure ε) α
  | .ok a => .ok a
  | .error e => .error (.error e)

end Failure

namespace Word

/-- The number of values of a word of `width` bits. -/
def radix (width : Nat) : Nat := 1 <<< width

@[simp] theorem radix_zero : radix 0 = 1 := rfl

theorem radix_add (a b : Nat) : radix (a + b) = radix a * radix b := by
  simp [radix, Nat.shiftLeft_eq, Nat.pow_add]

theorem radix_pos (width : Nat) : 0 < radix width := by
  rw [radix, Nat.shiftLeft_eq, Nat.one_mul]
  exact Nat.two_pow_pos width

theorem toNat_lt_radix {width : Nat} (a : BitVec width) : a.toNat < radix width := by
  rw [radix, Nat.shiftLeft_eq, Nat.one_mul]
  exact a.isLt

theorem toNat_ofNat (width value : Nat) :
    (BitVec.ofNat width value).toNat = value % radix width := by
  rw [radix, Nat.shiftLeft_eq, Nat.one_mul, BitVec.toNat_ofNat]

/-! ## Checked arithmetic -/

/-- The value itself, if a word of `width` bits holds it. -/
def fit (width value : Nat) : Checked Nat :=
  if value < radix width then .ok value else .error .overflow

/-- Exact sum in a word of `width` bits. -/
def add (width a b : Nat) : Checked Nat := fit width (a + b)

/-- Exact product in a word of `width` bits. -/
def mul (width a b : Nat) : Checked Nat := fit width (a * b)

/-- Exact difference.  It fits whenever the minuend does. -/
def sub (a b : Nat) : Checked Nat :=
  if b ≤ a then .ok (a - b) else .error .underflow

/-- Quotient, rounded down. -/
def div (a b : Nat) : Checked Nat :=
  if b = 0 then .error .zeroDivisor else .ok (a / b)

/-- Remainder of the division rounded down. -/
def rem (a b : Nat) : Checked Nat :=
  if b = 0 then .error .zeroDivisor else .ok (a % b)

/-- The value of the range `lower` to `upper` nearest to `value`. -/
def clamp (lower upper value : Nat) : Checked Nat :=
  if lower ≤ upper then .ok (max lower (min value upper)) else .error .crossedBounds

/-- Exact sum of two 64-bit words. -/
def add64 (a b : UInt64) : Checked UInt64 :=
  if a.toNat + b.toNat < UInt64.size then .ok (a + b) else .error .overflow

/-- Exact product of two 64-bit words. -/
def mul64 (a b : UInt64) : Checked UInt64 :=
  if a.toNat * b.toNat < UInt64.size then .ok (a * b) else .error .overflow

/-- Exact difference of two 64-bit words. -/
def sub64 (a b : UInt64) : Checked UInt64 :=
  if b ≤ a then .ok (a - b) else .error .underflow

theorem fit_of_lt {width value : Nat} (h : value < radix width) : fit width value = .ok value :=
  if_pos h

theorem add_of_lt {width a b : Nat} (h : a + b < radix width) : add width a b = .ok (a + b) :=
  fit_of_lt h

theorem mul_of_lt {width a b : Nat} (h : a * b < radix width) : mul width a b = .ok (a * b) :=
  fit_of_lt h

theorem sub_of_le {a b : Nat} (h : b ≤ a) : sub a b = .ok (a - b) := if_pos h

theorem div_of_pos {a b : Nat} (h : 0 < b) : div a b = .ok (a / b) := if_neg (Nat.ne_of_gt h)

theorem rem_of_pos {a b : Nat} (h : 0 < b) : rem a b = .ok (a % b) := if_neg (Nat.ne_of_gt h)

theorem clamp_of_le {lower upper value : Nat} (h : lower ≤ upper) :
    clamp lower upper value = .ok (max lower (min value upper)) := if_pos h

theorem add64_of_lt {a b : UInt64} (h : a.toNat + b.toNat < UInt64.size) :
    add64 a b = .ok (a + b) := if_pos h

theorem mul64_of_lt {a b : UInt64} (h : a.toNat * b.toNat < UInt64.size) :
    mul64 a b = .ok (a * b) := if_pos h

theorem sub64_of_le {a b : UInt64} (h : b ≤ a) : sub64 a b = .ok (a - b) := if_pos h

/-! ## Saturating arithmetic -/

/-- The largest 64-bit word. -/
def max64 : UInt64 := 18446744073709551615

/-- Sum, or the largest word where the sum does not fit. -/
def satAdd (a b : UInt64) : UInt64 :=
  if a.toNat + b.toNat < UInt64.size then a + b else max64

/-- Difference, or zero where it would be negative. -/
def satSub (a b : UInt64) : UInt64 := if b ≤ a then a - b else 0

/-- Product, or the largest word where the product does not fit. -/
def satMul (a b : UInt64) : UInt64 :=
  if a.toNat * b.toNat < UInt64.size then a * b else max64

theorem toNat_satAdd (a b : UInt64) :
    (satAdd a b).toNat = min (a.toNat + b.toNat) (UInt64.size - 1) := by
  unfold satAdd
  split
  · rw [UInt64.toNat_add, Nat.mod_eq_of_lt (by assumption)]
    omega
  · have : max64.toNat = UInt64.size - 1 := rfl
    omega

@[simp] theorem satAdd_zero_left (a : UInt64) : satAdd 0 a = a := by
  refine UInt64.toNat_inj.mp ?_
  rw [toNat_satAdd, UInt64.toNat_zero]
  have := a.toNat_lt
  have : UInt64.size = 2 ^ 64 := rfl
  omega

theorem toNat_satSub (a b : UInt64) : (satSub a b).toNat = a.toNat - b.toNat := by
  unfold satSub
  split
  · exact UInt64.toNat_sub_of_le _ _ (by assumption)
  · have h : a.toNat < b.toNat := UInt64.lt_iff_toNat_lt.mp (UInt64.not_le.mp (by assumption))
    have : (0 : UInt64).toNat = 0 := rfl
    omega

theorem toNat_satMul (a b : UInt64) :
    (satMul a b).toNat = min (a.toNat * b.toNat) (UInt64.size - 1) := by
  unfold satMul
  split
  · rw [UInt64.toNat_mul, Nat.mod_eq_of_lt (by assumption)]
    omega
  · have : max64.toNat = UInt64.size - 1 := rfl
    omega

end Word

end MomentumChain
