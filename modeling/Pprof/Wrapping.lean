/-
Two's complement arithmetic on integers.

A signed machine integer of `w` bits is an `ℤ` in the range `InRange w`; its
operations are those of `ℤ` followed by `wrap w`, which takes the residue back
into the range.  A checked build stops where an unchecked one wraps, so the
two agree as long as results stay in range (`wrap_eq`).
-/
import Mathlib

namespace Wrapping

/-- The signed integer of `w` bits congruent to `x`. -/
def wrap (w : ℕ) (x : ℤ) : ℤ := x.bmod (2 ^ w)

/-- `x` is a signed integer of `w` bits. -/
def InRange (w : ℕ) (x : ℤ) : Prop := -2 ^ (w - 1) ≤ x ∧ x < 2 ^ (w - 1)

instance (w : ℕ) (x : ℤ) : Decidable (InRange w x) := inferInstanceAs (Decidable (_ ∧ _))

theorem two_pow_half {w : ℕ} (hw : 0 < w) : (2 : ℕ) ^ w = 2 * 2 ^ (w - 1) := by
  obtain ⟨v, rfl⟩ : ∃ v, w = v + 1 := ⟨w - 1, by omega⟩
  rw [Nat.add_sub_cancel, Nat.pow_succ, Nat.mul_comm]

/-- A result in range is not changed. -/
theorem wrap_eq {w : ℕ} (hw : 0 < w) {x : ℤ} (h : InRange w x) : wrap w x = x := by
  have hpow := two_pow_half hw
  obtain ⟨hlo, hhi⟩ := h
  have hcast : ((2 ^ (w - 1) : ℕ) : ℤ) = 2 ^ (w - 1) := by push_cast; rfl
  refine Int.bmod_eq_of_le ?_ ?_ <;> omega

end Wrapping
