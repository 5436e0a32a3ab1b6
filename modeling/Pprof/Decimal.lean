/-
Decimal digits.

* `lowDigits` — the last digits of a number, as bytes; `lowDigits_inj` says how
  much of the number they determine;
* `numeral_eq` — the decimal numeral of a number is its last digits, as many as
  it has.
-/
import Mathlib

namespace Decimal

/-- The byte of a digit. -/
def digit (d : ℕ) : UInt8 := UInt8.ofNat (48 + d % 10)

/-- The last `k` decimal digits of a number. -/
def lowDigits (t : ℕ) : ℕ → List UInt8
  | 0 => []
  | k + 1 => digit (t / 10 ^ k) :: lowDigits t k

/-- The decimal numeral of a number, without leading zeros. -/
def numeral (t : ℕ) : List UInt8 := t.repr.toList.map fun c => UInt8.ofNat c.toNat

theorem length_lowDigits (t k : ℕ) : (lowDigits t k).length = k := by
  induction k with
  | zero => rfl
  | succ k ih => rw [lowDigits, List.length_cons, ih]

theorem digit_toNat (d : ℕ) : (digit d).toNat = 48 + d % 10 := by
  rw [digit, UInt8.toNat_ofNat']
  omega

theorem digit_ne_zero (d : ℕ) : digit d ≠ 0 := by
  intro h
  have hnat := congrArg UInt8.toNat h
  rw [digit_toNat] at hnat
  have hzero : (0 : UInt8).toNat = 0 := rfl
  omega

theorem ne_zero_of_mem_lowDigits {t k : ℕ} : ∀ b ∈ lowDigits t k, b ≠ 0 := by
  induction k with
  | zero =>
    intro b hb
    cases hb
  | succ k ih =>
    intro b hb
    obtain rfl | hb := List.mem_cons.mp hb
    · exact digit_ne_zero _
    · exact ih b hb

/-- The last digit stands last. -/
theorem lowDigits_succ (t k : ℕ) :
    lowDigits t (k + 1) = lowDigits (t / 10) k ++ [digit t] := by
  induction k with
  | zero => rw [lowDigits, lowDigits, lowDigits, pow_zero, Nat.div_one, List.nil_append]
  | succ k ih =>
    have hdiv : t / 10 ^ (k + 1) = t / 10 / 10 ^ k := by
      rw [Nat.div_div_eq_div_mul, pow_succ, Nat.mul_comm]
    rw [lowDigits, ih, hdiv, lowDigits, List.cons_append]

/-- As many last digits determine a number below that power of ten. -/
theorem lowDigits_inj {t u k : ℕ} : lowDigits t k = lowDigits u k ↔ t % 10 ^ k = u % 10 ^ k := by
  induction k with
  | zero =>
    rw [pow_zero, Nat.mod_one, Nat.mod_one]
    exact ⟨fun _ => rfl, fun _ => rfl⟩
  | succ k ih =>
    -- equal last characters are equal digits
    have hdigit : digit (t / 10 ^ k) = digit (u / 10 ^ k) ↔
        t / 10 ^ k % 10 = u / 10 ^ k % 10 := by
      rw [← UInt8.toNat_inj, digit_toNat, digit_toNat]
      omega
    rw [lowDigits, lowDigits, List.cons.injEq, hdigit, ih, Nat.mod_pow_succ, Nat.mod_pow_succ]
    have hpos : 0 < 10 ^ k := Nat.pow_pos (by omega)
    constructor
    · rintro ⟨hhigh, hlow⟩
      rw [hhigh, hlow]
    · intro h
      have hmod := congrArg (· % 10 ^ k) h
      simp only [Nat.add_mul_mod_self_left, Nat.mod_mod] at hmod
      rw [hmod] at h
      exact ⟨Nat.eq_of_mul_eq_mul_left hpos (Nat.add_left_cancel h), hmod⟩

theorem numeral_of_lt {t : ℕ} (h : t < 10) : numeral t = [digit t] := by
  have hchar : ∀ d < 10, UInt8.ofNat d.digitChar.toNat = digit d := by decide
  rw [numeral, Nat.toList_repr, Nat.toDigits_of_lt_base h, List.map_singleton, hchar t h]

theorem numeral_of_le {t : ℕ} (h : 10 ≤ t) : numeral t = numeral (t / 10) ++ [digit t] := by
  have hchar : ∀ d < 10, UInt8.ofNat d.digitChar.toNat = digit d := by decide
  have hlast : digit (t % 10) = digit t := by rw [digit, digit, Nat.mod_mod]
  rw [numeral, numeral, Nat.toList_repr, Nat.toList_repr, Nat.toDigits_of_base_le (by omega) h,
    List.map_append, List.map_singleton, hchar (t % 10) (Nat.mod_lt _ (by omega)), hlast]

/-- The numeral of a number with `k + 1` digits. -/
theorem numeral_eq {t k : ℕ} (hlow : k = 0 ∨ 10 ^ k ≤ t) (hhigh : t < 10 ^ (k + 1)) :
    numeral t = lowDigits t (k + 1) := by
  induction k generalizing t with
  | zero =>
    rw [numeral_of_lt (by omega), lowDigits, lowDigits, pow_zero, Nat.div_one]
  | succ k ih =>
    have hle := hlow.resolve_left (Nat.succ_ne_zero k)
    have hten : 10 ≤ t := by
      have hpos : 0 < 10 ^ k := Nat.pow_pos (by omega)
      rw [pow_succ] at hle
      omega
    -- without its last digit the number is in the range for one digit less
    have hlow' : 10 ^ k ≤ t / 10 := by
      rw [Nat.le_div_iff_mul_le (by omega), ← pow_succ]
      exact hle
    have hhigh' : t / 10 < 10 ^ (k + 1) := by
      rw [Nat.div_lt_iff_lt_mul (by omega), ← pow_succ]
      exact hhigh
    rw [numeral_of_le hten, ih (.inr hlow') hhigh', ← lowDigits_succ]

end Decimal
