/-
Text as bytes and back.

`String::from_utf8_lossy` (`lossyChars`) replaces what is not UTF-8; the bytes
of characters come back as these characters.  A byte below 128 is a character
of its own, wherever it stands.

* `lossyChars_encode` — encoded characters are read back;
* `fromUtf8_encode` — so encoded text is UTF-8;
* `toNat_of_mem_encode` — a byte below 128 comes from the character it is.
-/
import Pprof.PerfMap

namespace Pprof

open String (utf8EncodeChar)

/-! ### Bytes -/

variable {a b c d : UInt8}

theorem toNat_ofNat {n : ℕ} (h : n < 256) : (UInt8.ofNat n).toNat = n :=
  UInt8.toNat_ofNat_of_lt' h

/-- The bits of a byte below the `k`th. -/
theorem toNat_and (a : UInt8) {mask : UInt8} (k : ℕ) (h : mask.toNat = 2 ^ k - 1) :
    (a &&& mask).toNat = a.toNat % 2 ^ k := by
  rw [UInt8.toNat_and, h, Nat.and_two_pow_sub_one_eq_mod]

theorem utf8CharWidth_eq (a : UInt8) : utf8CharWidth a =
    if a.toNat < 0x80 then 1
    else if 0xC2 ≤ a.toNat ∧ a.toNat ≤ 0xDF then 2
    else if 0xE0 ≤ a.toNat ∧ a.toNat ≤ 0xEF then 3
    else if 0xF0 ≤ a.toNat ∧ a.toNat ≤ 0xF4 then 4
    else 0 := by
  simp only [utf8CharWidth, UInt8.lt_iff_toNat_lt, UInt8.le_iff_toNat_le, Bool.and_eq_true,
    decide_eq_true_eq]
  rfl

/-- The bytes that continue a character carry six bits. -/
theorem continuation : ∀ n < 64, isContinuation (UInt8.ofNat (n + 0x80)) = true ∧
    (UInt8.ofNat (n + 0x80) &&& 0x3F).toNat = n := by decide +kernel

/-- Only what fewer bytes can encode, a surrogate and what is too large may not
stand after the first byte. -/
theorem isSecond_continuation {m : ℕ} (hm : m < 64) (hE0 : a.toNat = 0xE0 → 32 ≤ m)
    (hED : a.toNat = 0xED → m < 32) (hF0 : a.toNat = 0xF0 → 16 ≤ m)
    (hF4 : a.toNat = 0xF4 → m < 16) : isSecond a (UInt8.ofNat (m + 0x80)) = true := by
  simp only [isSecond, ← UInt8.toNat_inj, UInt8.le_iff_toNat_le,
    toNat_ofNat (show m + 0x80 < 256 by omega)]
  -- the first bytes 0xE0, 0xED, 0xF0 and 0xF4 narrow the second; the others do not
  split
  · rename_i ha
    have hlower := hE0 ha
    simp
    omega
  · split
    · rename_i ha
      have hupper := hED ha
      simp
      omega
    · split
      · rename_i ha
        have hlower := hF0 ha
        simp
        omega
      · split
        · rename_i ha
          have hupper := hF4 ha
          simp
          omega
        · exact (continuation m hm).1

/-! ### Characters -/

theorem lossyChars_one (ha : utf8CharWidth a = 1) (bs : List UInt8) :
    lossyChars (a :: bs) = Char.ofNat a.toNat :: lossyChars bs := by
  rw [lossyChars.eq_def]
  simp only [ha, if_true]

theorem lossyChars_two (ha : utf8CharWidth a = 2) (hb : isSecond a b = true) (bs : List UInt8) :
    lossyChars (a :: b :: bs) = codePoint (a &&& 0x1F).toNat [b] :: lossyChars bs := by
  rw [lossyChars.eq_def]
  simp [ha, hb]

theorem lossyChars_three (ha : utf8CharWidth a = 3) (hb : isSecond a b = true)
    (hc : isContinuation c = true) (bs : List UInt8) :
    lossyChars (a :: b :: c :: bs) = codePoint (a &&& 0x0F).toNat [b, c] :: lossyChars bs := by
  rw [lossyChars.eq_def]
  simp [ha, hb, hc]

theorem lossyChars_four (ha : utf8CharWidth a = 4) (hb : isSecond a b = true)
    (hc : isContinuation c = true) (hd : isContinuation d = true) (bs : List UInt8) :
    lossyChars (a :: b :: c :: d :: bs)
      = codePoint (a &&& 0x07).toNat [b, c, d] :: lossyChars bs := by
  rw [lossyChars.eq_def]
  simp [ha, hb, hc, hd]

theorem codePoint_eq {x : Char} {first : ℕ} {rest : List UInt8}
    (h : rest.foldl (fun n b => n * 64 + (b &&& 0x3F).toNat) first = x.toNat) :
    codePoint first rest = x := by
  rw [codePoint, h, Char.ofNat_toNat]

/-- An encoded character is read back. -/
theorem lossyChars_encode_append (x : Char) (bs : List UInt8) :
    lossyChars (utf8EncodeChar x ++ bs) = x :: lossyChars bs := by
  have hvalid : x.toNat < 0xD800 ∨ 0xDFFF < x.toNat ∧ x.toNat < 0x110000 := x.valid
  have hval : x.val.toNat = x.toNat := rfl
  -- the bytes after the first are continuations, of six bits each
  have hlast := continuation (x.toNat % 64) (Nat.mod_lt _ (by decide))
  have hmiddle := continuation (x.toNat / 64 % 64) (Nat.mod_lt _ (by decide))
  have hupper := continuation (x.toNat / 4096 % 64) (Nat.mod_lt _ (by decide))
  rw [utf8EncodeChar]
  simp only [hval]
  split
  · -- one byte
    show lossyChars (UInt8.ofNat x.toNat :: bs) = _
    have hfirst : (UInt8.ofNat x.toNat).toNat = x.toNat := toNat_ofNat (by omega)
    rw [lossyChars_one, hfirst, Char.ofNat_toNat]
    rw [utf8CharWidth_eq, hfirst, if_pos (by omega)]
  · split
    · -- two
      have hfirst := toNat_ofNat (show x.toNat / 64 % 32 + 0xC0 < 256 by omega)
      refine (lossyChars_two ?_ ?_ bs).trans ?_
      · rw [utf8CharWidth_eq, hfirst, if_neg (by omega), if_pos (by omega)]
      · refine isSecond_continuation (by omega) ?_ ?_ ?_ ?_ <;> rw [hfirst] <;> omega
      congr 1
      refine codePoint_eq ?_
      rw [List.foldl_cons, List.foldl_nil, toNat_and _ 5 rfl, hfirst, hlast.2]
      omega
    · split
      · -- three
        have hfirst := toNat_ofNat (show x.toNat / 4096 % 16 + 0xE0 < 256 by omega)
        refine (lossyChars_three ?_ ?_ hlast.1 bs).trans ?_
        · rw [utf8CharWidth_eq, hfirst, if_neg (by omega), if_neg (by omega), if_pos (by omega)]
        · refine isSecond_continuation (by omega) ?_ ?_ ?_ ?_ <;> rw [hfirst] <;> omega
        congr 1
        refine codePoint_eq ?_
        rw [List.foldl_cons, List.foldl_cons, List.foldl_nil, toNat_and _ 4 rfl, hfirst, hmiddle.2,
          hlast.2]
        omega
      · -- four
        have hfirst := toNat_ofNat (show x.toNat / 262144 % 8 + 0xF0 < 256 by omega)
        refine (lossyChars_four ?_ ?_ hmiddle.1 hlast.1 bs).trans ?_
        · rw [utf8CharWidth_eq, hfirst, if_neg (by omega), if_neg (by omega), if_neg (by omega),
            if_pos (by omega)]
        · refine isSecond_continuation (by omega) ?_ ?_ ?_ ?_ <;> rw [hfirst] <;> omega
        congr 1
        refine codePoint_eq ?_
        rw [List.foldl_cons, List.foldl_cons, List.foldl_cons, List.foldl_nil, toNat_and _ 3 rfl,
          hfirst, hupper.2, hmiddle.2, hlast.2]
        omega

theorem lossyChars_encode (cs : List Char) : lossyChars (cs.flatMap utf8EncodeChar) = cs := by
  induction cs with
  | nil => rfl
  | cons c cs ih => rw [List.flatMap_cons, lossyChars_encode_append, ih]

/-- Encoded text is UTF-8. -/
theorem fromUtf8_encode (cs : List Char) : fromUtf8 (cs.flatMap utf8EncodeChar) = some cs := by
  rw [fromUtf8, lossyChars_encode, if_pos rfl]

/-- A byte below 128 comes from the character it is. -/
theorem toNat_of_mem_encode {x : Char} (h : b ∈ utf8EncodeChar x) (hb : b.toNat < 128) :
    x.toNat = b.toNat := by
  -- every byte of an encoding of several bytes is 128 or more
  have hhigh : ∀ n m, 128 ≤ m → n + m < 256 → b = UInt8.ofNat (n + m) → x.toNat = b.toNat := by
    rintro n m hm hlt rfl
    rw [UInt8.toNat_ofNat', Nat.mod_eq_of_lt (by omega)] at hb
    omega
  rw [utf8EncodeChar] at h
  simp only [show x.val.toNat = x.toNat from rfl] at h
  split at h
  · rw [List.mem_singleton.mp h, UInt8.toNat_ofNat', Nat.mod_eq_of_lt (by omega)]
  · split at h
    · simp only [List.mem_cons, List.not_mem_nil, or_false] at h
      obtain h | h := h
      · exact hhigh _ _ (by omega) (by omega) h
      · exact hhigh _ _ (by omega) (by omega) h
    · split at h
      · simp only [List.mem_cons, List.not_mem_nil, or_false] at h
        obtain h | h | h := h
        · exact hhigh _ _ (by omega) (by omega) h
        · exact hhigh _ _ (by omega) (by omega) h
        · exact hhigh _ _ (by omega) (by omega) h
      · simp only [List.mem_cons, List.not_mem_nil, or_false] at h
        obtain h | h | h | h := h
        · exact hhigh _ _ (by omega) (by omega) h
        · exact hhigh _ _ (by omega) (by omega) h
        · exact hhigh _ _ (by omega) (by omega) h
        · exact hhigh _ _ (by omega) (by omega) h

end Pprof
