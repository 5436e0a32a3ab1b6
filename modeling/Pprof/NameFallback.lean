/-
The name of a thread that has no name.

`write_thread_name_fallback` writes the digits of the thread id into the buffer
of the handler.  It counts them by comparing the id with growing powers of ten,
and the comparison is strict, so a power of ten is taken for the number before
it; and the count goes up to the size of the buffer, which leaves no room for
the byte that ends the name.

* `countLoop_eq`, `writeLoop_eq` — what the two loops do;
* `fallback_eq` — what is left in a zeroed buffer;
* `terminated_iff` — for which ids the name ends inside the buffer;
* `names_iff` — for which ids it is the decimal numeral, and which ids get the
  same name.
-/
import Pprof.Frames
import Pprof.Decimal

open Decimal

namespace Pprof

/-! ### The loops -/

/-- The first loop of `write_thread_name_fallback`, from `base` and `len`; `room`
is what `len` lacks of `MAX_THREAD_NAME`. -/
def countLoop (t : ℕ) : ℕ → ℕ → ℕ → ℕ × ℕ
  | 0, base, len => (base, len)
  | room + 1, base, len =>
    if t > base then countLoop t room (base * 10) (len + 1) else (base, len)

/-- `try_into` to a `c_char`; where it fails the source writes zero. -/
def toCChar (n : ℕ) : UInt8 := if n ≤ 127 then UInt8.ofNat n else 0

/-- The second loop, from `base` and `index`; `left` is what `index` lacks of
`len`, and an index behind the buffer panics. -/
def writeLoop (t : ℕ) : ℕ → ℕ → ℕ → List UInt8 → Option (List UInt8)
  | 0, _, _, name => some name
  | left + 1, base, index, name =>
    if base > 1 then
      let base := base / 10
      if index < name.length then
        writeLoop t left base (index + 1) (name.set index (toCChar (48 + t / base % 10)))
      else none
    else some name

/-- `write_thread_name_fallback`. -/
def writeThreadNameFallback (currentThread : UInt64) (name : List UInt8) : Option (List UInt8) :=
  let counted := countLoop currentThread.toNat MAX_THREAD_NAME 1 0
  writeLoop currentThread.toNat counted.2 counted.1 0 name

/-- The buffer of the handler. -/
def zeroedName : List UInt8 := List.replicate MAX_THREAD_NAME 0

/-- The bytes before the first NUL, as `CStr` finds them. -/
def beforeNul (bytes : List UInt8) : List UInt8 := bytes.takeWhile (· != 0)

/-- The slice of `UnresolvedFrames::new` that takes the name, `none` where it
panics. -/
def copyName (tn : List UInt8) : Option (List UInt8) :=
  if tn.length ≤ MAX_THREAD_NAME then
    some (tn ++ List.replicate (MAX_THREAD_NAME - tn.length) 0)
  else none

theorem copyName_eq {F : Type*} (frames : List F) (tn : ThreadName) (threadId : UInt64)
    (now : SystemTime) :
    copyName tn.1 = some (UnresolvedFrames.new frames tn threadId now).threadName :=
  if_pos tn.2

/-- The first loop stops at the first power of ten that is not below the number,
or at the end of the room. -/
theorem countLoop_eq (t room k : ℕ) : ∃ n ≤ room,
    countLoop t room (10 ^ k) k = (10 ^ (k + n), k + n) ∧
      (∀ i < n, 10 ^ (k + i) < t) ∧ (n = room ∨ t ≤ 10 ^ (k + n)) := by
  induction room generalizing k with
  | zero => exact ⟨0, Nat.le_refl 0, rfl, fun i hi => absurd hi (Nat.not_lt_zero i), .inl rfl⟩
  | succ room ih =>
    rw [countLoop]
    by_cases hgt : t > 10 ^ k
    · -- one more round: the power grows by a digit
      obtain ⟨n, hn, hloop, hbelow, hstop⟩ := ih (k + 1)
      rw [if_pos hgt, ← pow_succ, hloop]
      have hadd : k + 1 + n = k + (n + 1) := by omega
      refine ⟨n + 1, by omega, by rw [hadd], fun i hi => ?_, ?_⟩
      · cases i with
        | zero => exact hgt
        | succ i =>
          have hi' := hbelow i (by omega)
          rwa [Nat.add_right_comm] at hi'
      · rw [← hadd]
        exact hstop.imp (fun hn => by omega) id
    · rw [if_neg hgt]
      exact ⟨0, Nat.zero_le _, rfl, fun i hi => absurd hi (Nat.not_lt_zero i),
        .inr (Nat.le_of_not_lt hgt)⟩

theorem toCChar_digit (d : ℕ) : toCChar (48 + d % 10) = digit d := if_pos (by omega)

/-- The second loop writes the last digits, one for each power of ten. -/
theorem writeLoop_eq (t left index : ℕ) (name : List UInt8) (h : index + left ≤ name.length) :
    writeLoop t left (10 ^ left) index name
      = some (name.take index ++ lowDigits t left ++ name.drop (index + left)) := by
  induction left generalizing index name with
  | zero => rw [writeLoop, lowDigits, List.append_nil, Nat.add_zero, List.take_append_drop]
  | succ left ih =>
    have hbase : 10 ^ (left + 1) > 1 := Nat.one_lt_pow (Nat.succ_ne_zero left) (by omega)
    have hdiv : 10 ^ (left + 1) / 10 = 10 ^ left := by
      rw [pow_succ, Nat.mul_div_cancel _ (by omega)]
    have hindex : index < name.length := by omega
    rw [writeLoop, if_pos hbase]
    simp only [hdiv, toCChar_digit]
    rw [if_pos hindex, ih (index + 1) _ (by rw [List.length_set]; omega), List.take_add_one,
      List.take_set_of_le (Nat.le_refl index), List.getElem?_set_self hindex,
      List.drop_set_of_lt (by omega), lowDigits, Option.toList_some, List.append_assoc,
      List.append_assoc, List.append_assoc, List.singleton_append, List.cons_append,
      Nat.add_right_comm, Nat.add_assoc]

/-- What is left in the buffer: as many of the last digits as powers of ten were
found below the number, and zeros. -/
theorem fallback_eq (t : UInt64) : ∃ len ≤ MAX_THREAD_NAME,
    writeThreadNameFallback t zeroedName
      = some (lowDigits t.toNat len ++ List.replicate (MAX_THREAD_NAME - len) 0) ∧
    (∀ i < len, 10 ^ i < t.toNat) ∧ (len = MAX_THREAD_NAME ∨ t.toNat ≤ 10 ^ len) := by
  obtain ⟨len, hlen, hloop, hbelow, hstop⟩ := countLoop_eq t.toNat MAX_THREAD_NAME 0
  simp only [Nat.zero_add] at hloop hbelow hstop
  refine ⟨len, hlen, ?_, hbelow, hstop⟩
  have hroom : 0 + len ≤ zeroedName.length := by
    rw [zeroedName, List.length_replicate]
    omega
  rw [pow_zero] at hloop
  rw [writeThreadNameFallback, hloop, writeLoop_eq _ _ _ _ hroom, List.take_zero, List.nil_append,
    zeroedName, Nat.zero_add, List.drop_replicate]

/-- The zeros behind the digits, if there is room for any. -/
theorem zeros_eq {len : ℕ} (h : len < MAX_THREAD_NAME) :
    List.replicate (MAX_THREAD_NAME - len) (0 : UInt8)
      = 0 :: List.replicate (MAX_THREAD_NAME - len - 1) 0 := by
  obtain ⟨rest, hrest⟩ : ∃ rest, MAX_THREAD_NAME - len = rest + 1 :=
    ⟨MAX_THREAD_NAME - len - 1, by omega⟩
  rw [hrest, List.replicate_succ, Nat.add_sub_cancel]

/-! ### The end of the name -/

/-- The name ends inside the buffer, whatever lies behind it, and fits into a
recorded stack. -/
def Terminated (t : UInt64) : Prop :=
  ∃ name, writeThreadNameFallback t zeroedName = some name ∧ 0 ∈ name ∧
    ∀ behind, (beforeNul (name ++ behind)).length < MAX_THREAD_NAME ∧
      (copyName (beforeNul (name ++ behind))).isSome

theorem beforeNul_digits {t k : ℕ} (bytes : List UInt8) :
    beforeNul (lowDigits t k ++ 0 :: bytes) = lowDigits t k := by
  rw [beforeNul, List.takeWhile_append_of_pos, List.takeWhile_cons_of_neg (by decide),
    List.append_nil]
  exact fun b hb => bne_iff_ne.mpr (ne_zero_of_mem_lowDigits b hb)

/-- **When the fallback name ends inside the buffer.** -/
theorem terminated_iff (t : UInt64) :
    Terminated t ↔ t.toNat ≤ 10 ^ (MAX_THREAD_NAME - 1) := by
  obtain ⟨len, hlen, hname, hbelow, hstop⟩ := fallback_eq t
  have hmax : MAX_THREAD_NAME = 16 := rfl
  obtain hfull | hroom := Nat.eq_or_lt_of_le hlen
  · -- every byte of the buffer is a digit
    have hlt := hbelow (MAX_THREAD_NAME - 1) (by omega)
    rw [hfull, Nat.sub_self, List.replicate_zero, List.append_nil] at hname
    constructor
    · rintro ⟨name, hname', hzero, _⟩
      obtain rfl := Option.some.inj (hname.symm.trans hname')
      exact absurd rfl (ne_zero_of_mem_lowDigits 0 hzero)
    · intro hle
      omega
  · have hle : t.toNat ≤ 10 ^ len := hstop.resolve_left (by omega)
    have hpow : 10 ^ len ≤ 10 ^ (MAX_THREAD_NAME - 1) :=
      Nat.pow_le_pow_right (by omega) (by omega)
    rw [zeros_eq hroom] at hname
    refine ⟨fun _ => by omega, fun _ => ⟨_, hname, ?_, fun behind => ?_⟩⟩
    · exact List.mem_append_right _ List.mem_cons_self
    · rw [List.append_assoc, List.cons_append, beforeNul_digits, copyName, length_lowDigits,
        if_pos hlen]
      exact ⟨hroom, rfl⟩

/-- An id of sixteen digits fills the buffer: there is no NUL in it, and with two
more bytes behind it the slice of `UnresolvedFrames::new` is out of range. -/
theorem not_terminated : ¬ Terminated 1125899906842624 ∧
    ((writeThreadNameFallback 1125899906842624 zeroedName).map fun name =>
      copyName (beforeNul (name ++ [1, 0]))) = some none := by
  have hname : writeThreadNameFallback 1125899906842624 zeroedName
      = some [49, 49, 50, 53, 56, 57, 57, 57, 48, 54, 56, 52, 50, 54, 50, 52] := by
    decide +kernel
  refine ⟨?_, ?_⟩
  · rintro ⟨name, hname', hzero, _⟩
    obtain rfl := Option.some.inj (hname.symm.trans hname')
    exact absurd hzero (by decide)
  · rw [hname]
    decide

/-! ### The digits of the name -/

/-- The name the fallback leaves in a zeroed buffer. -/
def fallbackName (t : UInt64) : Option (List UInt8) :=
  (writeThreadNameFallback t zeroedName).map beforeNul

/-- The name of an id that has fewer digits than the buffer has bytes. -/
theorem fallbackName_eq {t : UInt64} (h : t.toNat < 10 ^ (MAX_THREAD_NAME - 1)) :
    ∃ len, fallbackName t = some (lowDigits t.toNat len) ∧ (∀ i < len, 10 ^ i < t.toNat) ∧
      t.toNat ≤ 10 ^ len := by
  obtain ⟨len, hlen, hname, hbelow, hstop⟩ := fallback_eq t
  have hmax : MAX_THREAD_NAME = 16 := rfl
  have hroom : len < MAX_THREAD_NAME := by
    obtain hfull | hroom := Nat.eq_or_lt_of_le hlen
    · have hlt := hbelow (MAX_THREAD_NAME - 1) (by omega)
      omega
    · exact hroom
  refine ⟨len, ?_, hbelow, hstop.resolve_left (by omega)⟩
  rw [fallbackName, hname, Option.map_some, zeros_eq hroom, beforeNul_digits]

/-- The id is neither zero nor a power of ten. -/
def NotPower (t : ℕ) : Prop := t ≠ 0 ∧ ∀ k, t ≠ 10 ^ k

/-- The first digits that are found are the numeral, but for zero and the powers
of ten. -/
theorem lowDigits_eq_numeral_iff {t len : ℕ} (hbelow : ∀ i < len, 10 ^ i < t)
    (hle : t ≤ 10 ^ len) : lowDigits t len = numeral t ↔ NotPower t := by
  by_cases hpow : t = 10 ^ len
  · -- one digit is missing
    have hnumeral : numeral t = lowDigits t (len + 1) := by
      refine numeral_eq (.inr hpow.ge) ?_
      rw [hpow]
      exact Nat.pow_lt_pow_succ (by omega)
    refine ⟨fun h => ?_, fun h => absurd hpow (h.2 len)⟩
    have hlen := congrArg List.length h
    rw [hnumeral, length_lowDigits, length_lowDigits] at hlen
    omega
  · have hlt : t < 10 ^ len := by omega
    cases len with
    | zero =>
      -- only zero lies below one
      have hzero : t = 0 := by
        rw [pow_zero] at hlt
        omega
      rw [hzero]
      exact ⟨fun h => absurd h (by decide), fun h => absurd rfl h.1⟩
    | succ k =>
      have hlow := hbelow k (by omega)
      refine ⟨fun _ => ⟨by omega, fun j hj => ?_⟩, fun _ => (numeral_eq (.inr hlow.le) hlt).symm⟩
      rw [hj] at hlow hlt
      have hkj := (Nat.pow_lt_pow_iff_right (by omega)).mp hlow
      have hjk := (Nat.pow_lt_pow_iff_right (by omega)).mp hlt
      omega

/-- The number of digits is determined by the number. -/
theorem len_le_of_le {t u len len' : ℕ} (ht : ∀ i < len, 10 ^ i < t) (hle : t ≤ u)
    (hule : u ≤ 10 ^ len') : len ≤ len' := by
  by_contra hlt
  have hbelow := ht len' (by omega)
  omega

/-- As many digits and the same ones: the numbers are the same, or there are no
digits. -/
theorem lowDigits_eq_iff {t u len len' : ℕ} (ht : ∀ i < len, 10 ^ i < t) (htle : t ≤ 10 ^ len)
    (hu : ∀ i < len', 10 ^ i < u) (hule : u ≤ 10 ^ len') :
    lowDigits t len = lowDigits u len' ↔ t = u ∨ (t ≤ 1 ∧ u ≤ 1) := by
  constructor
  · intro h
    have hlen := congrArg List.length h
    rw [length_lowDigits, length_lowDigits] at hlen
    subst hlen
    cases len with
    | zero => exact .inr ⟨by omega, by omega⟩
    | succ k =>
      have hmod := lowDigits_inj.mp h
      have hpos := ht 0 (by omega)
      have hpos' := hu 0 (by omega)
      left
      -- a number above zero and not above the power of ten is its remainder, or the power
      obtain hfull | htlt := Nat.eq_or_lt_of_le htle <;>
        obtain hfull' | hult := Nat.eq_or_lt_of_le hule
      · omega
      · rw [hfull, Nat.mod_self, Nat.mod_eq_of_lt hult] at hmod
        omega
      · rw [hfull', Nat.mod_self, Nat.mod_eq_of_lt htlt] at hmod
        omega
      · rwa [Nat.mod_eq_of_lt htlt, Nat.mod_eq_of_lt hult] at hmod
  · rintro (rfl | ⟨htone, huone⟩)
    · have hlen := len_le_of_le ht (Nat.le_refl t) hule
      have hlen' := len_le_of_le hu (Nat.le_refl t) htle
      rw [Nat.le_antisymm hlen hlen']
    · have hlen : len = 0 := Nat.le_zero.mp (len_le_of_le ht htone (Nat.le_refl 1))
      have hlen' : len' = 0 := Nat.le_zero.mp (len_le_of_le hu huone (Nat.le_refl 1))
      rw [hlen, hlen']
      rfl

/-- The name of an id is its decimal numeral. -/
def Numbered (t : UInt64) : Prop := fallbackName t = some (numeral t.toNat)

/-- **When the fallback name is the thread id in decimal**, and which ids share
a name. -/
theorem names_iff {t : UInt64} (ht : t.toNat < 10 ^ (MAX_THREAD_NAME - 1)) :
    (Numbered t ↔ NotPower t.toNat) ∧
    ∀ u : UInt64, u.toNat < 10 ^ (MAX_THREAD_NAME - 1) →
      (fallbackName t = fallbackName u ↔ t = u ∨ (t.toNat ≤ 1 ∧ u.toNat ≤ 1)) := by
  obtain ⟨len, hname, hbelow, hle⟩ := fallbackName_eq ht
  constructor
  · rw [Numbered, hname, Option.some.injEq]
    exact lowDigits_eq_numeral_iff hbelow hle
  · intro u hu
    obtain ⟨len', hname', hbelow', hle'⟩ := fallbackName_eq hu
    rw [hname, hname', Option.some.injEq, lowDigits_eq_iff hbelow hle hbelow' hle',
      UInt64.toNat_inj]

theorem names_iff_123456 : Numbered 123456 ∧ fallbackName 123456 ≠ fallbackName 123457 := by
  have hnat : (123456 : UInt64).toNat = 123456 := rfl
  obtain ⟨hnumbered, hnames⟩ := names_iff (show (123456 : UInt64).toNat < 10 ^ 15 by decide)
  constructor
  · refine hnumbered.mpr ⟨by decide, fun k hk => ?_⟩
    rw [hnat] at hk
    obtain hlt | hle := Nat.lt_or_ge 5 k
    · have hpow := Nat.pow_le_pow_right (show 0 < 10 by omega) hlt
      omega
    · have hpow : ∀ i ≤ 5, 123456 ≠ 10 ^ i := by decide
      exact hpow k hle hk
  · intro h
    obtain heq | ⟨hle, _⟩ := (hnames 123457 (by decide)).mp h
    · exact absurd heq (by decide)
    · omega

/-- The id ten is named by its last digit alone, and the ids zero and one both
have an empty name. -/
theorem not_numbered : ¬ Numbered 10 ∧ fallbackName 10 = some [48] ∧
    fallbackName 0 = fallbackName 1 := by
  have hname : fallbackName 10 = some [48] := by decide +kernel
  have hnumeral : numeral 10 = [49, 48] := by decide +kernel
  refine ⟨fun h => ?_, hname, by decide +kernel⟩
  have hten : (10 : UInt64).toNat = 10 := rfl
  rw [Numbered, hname, hten, hnumeral] at h
  exact absurd h (by decide)

end Pprof
