import MomentumChain.Contract.Dispatch
import Mathlib.Logic.Function.Basic

/-!
# Selectors of methods

A selector is the start of a digest, so nothing in its definition keeps two methods apart.  The
selectors of the methods there are have been computed, and they are all different.  So a contract
has at most one method under a selector (`Entry.method?_eq_some_iff`).
-/

namespace MomentumChain.Contract

namespace Method

/-- The selector as computed. -/
def computedSelector : Method → Bytes
  | .fuse => [0xe7, 0x2f, 0x2a, 0x43]
  | .cancelFuse => [0x49, 0x44, 0x9f, 0x46]
  | .setVariables => [0x30, 0xb9, 0xad, 0xab]
  | .createSpork => [0x12, 0x7e, 0x8c, 0x53]
  | .activateSpork => [0xb1, 0xee, 0x6f, 0x1f]
  | .donate => [0xd9, 0x17, 0xde, 0xb5]

-- one Keccak permutation for each method, each checked by itself
theorem selector_eq (method : Method) : method.selector = method.computedSelector := by
  cases method with
  | fuse => decide +kernel
  | cancelFuse => decide +kernel
  | setVariables => decide +kernel
  | createSpork => decide +kernel
  | activateSpork => decide +kernel
  | donate => decide +kernel

/-- No two methods share a selector. -/
theorem selector_injective : Function.Injective selector := by
  intro a b h
  rw [selector_eq, selector_eq] at h
  cases a <;> cases b <;> first | rfl | exact absurd h (by decide)

theorem length_selector (method : Method) : method.selector.length = selectorSize := by
  simp [selector, Contract.selector, selectorSize]

end Method

/-- The method found under a selector is the method that has it. -/
theorem Entry.method?_eq_some_iff {entry : Entry} {called : Bytes} {method : Method} :
    entry.method? called = some method ↔ method ∈ entry.methods ∧ method.selector = called := by
  constructor
  · intro h
    exact ⟨List.mem_of_find?_eq_some h, by simpa using List.find?_some h⟩
  · rintro ⟨hmem, rfl⟩
    cases hfound : entry.method? method.selector with
    | none =>
        have hother := List.find?_eq_none.mp hfound method hmem
        simp at hother
    | some found =>
        have hselector : found.selector = method.selector := by simpa using List.find?_some hfound
        rw [Method.selector_injective hselector]

end MomentumChain.Contract
