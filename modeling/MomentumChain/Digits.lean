/-!
# Positional notation

A number is written by its digits in a base, highest first and without leading
zeros, and zero by the digit zero.  `ofDigits_digits` says that the digits have
the value of the number, and `lt_of_mem_digits` that they are below the base.
-/

namespace MomentumChain

/-- The digits of a number, highest first.  A base below two is no base, and the
number then stands for itself. -/
def digits (base n : Nat) : List Nat :=
  if n < base ∨ base < 2 then [n] else digits base (n / base) ++ [n % base]
termination_by n
decreasing_by exact Nat.div_lt_self (by omega) (by omega)

/-- The value of digits after digits of a value. -/
def ofDigitsAfter (base value : Nat) (ds : List Nat) : Nat :=
  ds.foldl (fun value d => base * value + d) value

/-- The value of digits. -/
def ofDigits (base : Nat) (ds : List Nat) : Nat := ofDigitsAfter base 0 ds

theorem ofDigits_digits (base n : Nat) : ofDigits base (digits base n) = n := by
  fun_induction digits base n with
  | case1 n h => simp [ofDigits, ofDigitsAfter]
  | case2 n h ih =>
      simp only [ofDigits, ofDigitsAfter, List.foldl_append] at ih ⊢
      rw [ih]
      exact Nat.div_add_mod n base

theorem lt_of_mem_digits {base : Nat} (hbase : 2 ≤ base) {n d : Nat} (h : d ∈ digits base n) :
    d < base := by
  fun_induction digits base n with
  | case1 n hn =>
      cases List.mem_singleton.mp h
      omega
  | case2 n hn ih =>
      cases List.mem_append.mp h with
      | inl hm => exact ih hm
      | inr hm =>
          cases List.mem_singleton.mp hm
          exact Nat.mod_lt _ (by omega)

theorem digits_ne_nil (base n : Nat) : digits base n ≠ [] := by
  rw [digits]
  split
  · exact List.cons_ne_nil _ _
  · exact List.append_ne_nil_of_right_ne_nil _ (List.cons_ne_nil _ _)

end MomentumChain
