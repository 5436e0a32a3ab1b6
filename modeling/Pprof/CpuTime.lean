/-
The CPU time of a sample.

`pprof` multiplies a count by a billion in `i64` and divides the product by the
frequency, so of the counts of an `isize` only the smaller ones are exact, and
a negative frequency, which `Timer::new` takes, turns the sign.

* `product_inRange_iff`, `tdiv_nonneg_iff` — the two conditions for one count;
* `cpuTime_iff` — when the arithmetic of `pprof` is exact.
-/
import Pprof.Canonical

open Wrapping

namespace Pprof

/-! ### One count -/

theorem inRange_of_nonneg {x : ℤ} (h : 0 ≤ x) : InRange 64 x ↔ x < 2 ^ 63 := by
  show -2 ^ 63 ≤ x ∧ x < 2 ^ 63 ↔ _
  omega

theorem product_inRange_iff {count : ℤ} (h : 0 < count) :
    InRange 64 (count * 1000000000) ↔ count ≤ 9223372036 := by
  show -2 ^ 63 ≤ count * 1000000000 ∧ count * 1000000000 < 2 ^ 63 ↔ _
  omega

/-- A quotient is not negative when the divisor is positive, or larger than the
product so that the quotient is zero. -/
theorem tdiv_nonneg_iff {product frequency : ℤ} (h : 0 < product) (hfrequency : frequency ≠ 0) :
    0 ≤ product.tdiv frequency ↔ 0 < frequency ∨ product < -frequency := by
  obtain hneg | hpos := lt_or_ge frequency 0
  · have hdiv : product.tdiv frequency = -(product / -frequency) := by
      rw [← Int.tdiv_eq_ediv_of_nonneg h.le, Int.tdiv_neg, Int.neg_neg]
    have hone : 1 ≤ product / -frequency ↔ 1 * -frequency ≤ product :=
      Int.le_ediv_iff_mul_le (by omega)
    have hnonneg : 0 ≤ product / -frequency := Int.ediv_nonneg h.le (by omega)
    omega
  · have hfrequency : 0 < frequency := by omega
    have hnonneg := Int.tdiv_nonneg h.le hpos
    omega

/-- The quotients that are not negative grow with the product. -/
theorem tdiv_mono {product product' frequency : ℤ} (hle : product ≤ product')
    (h : 0 < product) (hfrequency : 0 < frequency ∨ product' < -frequency) :
    product.tdiv frequency ≤ product'.tdiv frequency := by
  obtain hpos | hlt := hfrequency
  · exact Int.tdiv_le_tdiv hpos hle
  · -- both quotients are zero
    have hzero : ∀ x : ℤ, 0 < x → x < -frequency → x.tdiv frequency = 0 := by
      intro x hx hlt
      have htdiv := Int.tdiv_eq_zero_of_lt hx.le hlt
      rw [Int.tdiv_neg] at htdiv
      omega
    rw [hzero product h (by omega), hzero product' (by omega) hlt]

variable [Demangle]

namespace Report

open Protobuf

variable {r : Report}

/-- The arithmetic of `pprof` is exact: no product and no cast of a time
overflows, and the second value of a sample is the integer part of its CPU
time, not of the other sign than the count, and not smaller for a larger
count. -/
structure ExactTimes (r : Report) (p : Protos.Profile) : Prop where
  products : r.CountsFit
  startTime : InRange 64 (max 0 r.timing.startTime)
  duration : InRange 64 r.timing.duration
  timeNanos : p.timeNanos = max 0 r.timing.startTime
  durationNanos : p.durationNanos = r.timing.duration
  period : p.period = (1000000000 : ℤ).tdiv r.timing.frequency
  values : p.sample.map Protos.Sample.value = r.data.map fun entry =>
    [entry.2, (entry.2 * 1000000000).tdiv r.timing.frequency]
  sign : ∀ s ∈ p.sample, ∀ count nanos, s.value = [count, nanos] → 0 ≤ count * nanos
  monotone : ∀ s ∈ p.sample, ∀ s' ∈ p.sample, ∀ count nanos count' nanos',
    s.value = [count, nanos] → s'.value = [count', nanos'] → count ≤ count' → nanos ≤ nanos'

/-- Nothing leaves `i64`, and the frequency is positive or takes every quotient
to zero. -/
structure FitsTimes (r : Report) : Prop where
  counts : ∀ entry ∈ r.data, entry.2 ≤ 9223372036
  frequency : 0 < r.timing.frequency ∨
    ∀ entry ∈ r.data, entry.2 * 1000000000 < -r.timing.frequency
  startTime : max 0 r.timing.startTime < (2 : ℤ) ^ 63
  duration : r.timing.duration < (2 : ℤ) ^ 63

omit [Demangle] in
theorem FitsTimes.divisor (h : r.FitsTimes) {entry : Frames × ℤ} (hentry : entry ∈ r.data) :
    0 < r.timing.frequency ∨ entry.2 * 1000000000 < -r.timing.frequency :=
  h.frequency.imp_right fun hlt => hlt entry hentry

/-- Without an overflow the values of a sample are those of its entry. -/
theorem mem_sample (order : StringOrder r) (hcounts : r.CountsFit) {s : Protos.Sample}
    (h : s ∈ (r.profile order).sample) :
    ∃ entry ∈ r.data, s.value = [entry.2, (entry.2 * 1000000000).tdiv r.timing.frequency] := by
  obtain ⟨entry, hentry, rfl⟩ := List.mem_map.mp h
  refine ⟨entry, hentry, ?_⟩
  rw [sampleOf, wrap_eq (by decide) (hcounts entry hentry)]

theorem exactTimes_profile (order : StringOrder r) (hpos : ∀ entry ∈ r.data, 0 < entry.2)
    (hne : r.timing.frequency ≠ 0) (h : r.FitsTimes) : r.ExactTimes (r.profile order) := by
  -- under these bounds none of the conversions wraps
  have hcounts : r.CountsFit := fun entry hentry =>
    (product_inRange_iff (hpos entry hentry)).mpr (h.counts entry hentry)
  have hstart : InRange 64 (max 0 r.timing.startTime) :=
    (inRange_of_nonneg (le_max_left _ _)).mpr h.startTime
  have hduration : InRange 64 r.timing.duration :=
    (inRange_of_nonneg (Int.natCast_nonneg _)).mpr h.duration
  have htimeNanos : (r.profile order).timeNanos = max 0 r.timing.startTime := by
    simp only [profile]
    exact wrap_eq (by decide) hstart
  have hdurationNanos : (r.profile order).durationNanos = r.timing.duration := by
    simp only [profile]
    exact wrap_eq (by decide) hduration
  refine ⟨hcounts, hstart, hduration, htimeNanos, hdurationNanos, rfl, ?_, ?_, ?_⟩
  · show (r.data.map (sampleOf order.position r.timing.frequency r.rows)).map Protos.Sample.value
      = _
    rw [List.map_map]
    refine List.map_congr_left fun entry hentry => ?_
    show [entry.2, (wrap 64 (entry.2 * 1000000000)).tdiv r.timing.frequency] = _
    rw [wrap_eq (by decide) (hcounts entry hentry)]
  · intro s hs count nanos hvalue
    obtain ⟨entry, hentry, hs⟩ := mem_sample order hcounts hs
    obtain ⟨rfl, rfl⟩ : entry.2 = count ∧ _ = nanos := by simpa using hs.symm.trans hvalue
    -- a count is positive, so the sign of its time is that of the frequency
    have hcount := hpos entry hentry
    refine Int.mul_nonneg hcount.le ?_
    exact (tdiv_nonneg_iff (by omega) hne).mpr (h.divisor hentry)
  · intro s hs s' hs' count nanos count' nanos' hvalue hvalue' hle
    -- the same divisor for both, so the order of the counts is that of the times
    obtain ⟨entry, hentry, hs⟩ := mem_sample order hcounts hs
    obtain ⟨entry', hentry', hs'⟩ := mem_sample order hcounts hs'
    obtain ⟨rfl, rfl⟩ : entry.2 = count ∧ _ = nanos := by simpa using hs.symm.trans hvalue
    obtain ⟨rfl, rfl⟩ : entry'.2 = count' ∧ _ = nanos' := by simpa using hs'.symm.trans hvalue'
    have hcount := hpos entry hentry
    exact tdiv_mono (by omega) (by omega) (h.divisor hentry')

theorem fitsTimes_of_exactTimes {order : StringOrder r} (hpos : ∀ entry ∈ r.data, 0 < entry.2)
    (hne : r.timing.frequency ≠ 0) (h : r.ExactTimes (r.profile order)) : r.FitsTimes where
  counts entry hentry := (product_inRange_iff (hpos entry hentry)).mp (h.products entry hentry)
  frequency := by
    by_contra hnot
    push Not at hnot
    obtain ⟨hfrequency, entry, hentry, hlarge⟩ := hnot
    have hcount := hpos entry hentry
    -- the sample of this entry has the wrong sign
    have hsign := h.sign _ (List.mem_map_of_mem hentry) _ _ rfl
    rw [wrap_eq (by decide) (h.products entry hentry)] at hsign
    have hnonneg := nonneg_of_mul_nonneg_right hsign hcount
    rw [tdiv_nonneg_iff (by omega) hne] at hnonneg
    omega
  startTime := (inRange_of_nonneg (le_max_left _ _)).mp h.startTime
  duration := (inRange_of_nonneg (Int.natCast_nonneg _)).mp h.duration

/-- **When the CPU times are exact**, for every report whose counts are
positive and whose frequency a timer was made with: `pprof` returns and its
arithmetic is exact if and only if nothing leaves `i64` and no quotient is
negative. -/
theorem cpuTime_iff (r : Report) (order : StringOrder r)
    (hcounts : ∀ entry ∈ r.data, 0 < entry.2 ∧ InRange 64 entry.2)
    (htimer : ∃ startInstant itimer,
      (Timer.new r.timing.frequency r.timing.startTime startInstant itimer).isSome) :
    (∃ p, r.pprof order = some p ∧ r.ExactTimes p) ↔ r.FitsTimes := by
  have hpos : ∀ entry ∈ r.data, 0 < entry.2 := fun entry hentry => (hcounts entry hentry).1
  have hne : r.timing.frequency ≠ 0 := by
    rintro hzero
    obtain ⟨startInstant, itimer, hsome⟩ := htimer
    rw [Timer.new, Timer.newWith, if_pos hzero] at hsome
    cases hsome
  constructor
  · rintro ⟨p, hp, hexact⟩
    rw [pprof_eq_of_divides order (divides_of_pprof hp)] at hp
    obtain rfl := Option.some.inj hp
    exact fitsTimes_of_exactTimes hpos hne hexact
  · intro h
    have hexact := exactTimes_profile order hpos hne h
    exact ⟨_, pprof_eq_of_divides order (divides_of_inRange hne hexact.products), hexact⟩

end Report

end Pprof

/-! ### Counts and frequencies -/

namespace Pprof.Given

/-- The main thread, sampled `count` times at a frequency. -/
def counted (count frequency : ℤ) : Report where
  data := [(⟨[[symbolAt 10]], "main", 1, 0⟩, count)]
  timing := ⟨frequency, 1700000000000000000, 60000000000⟩
  distinct := List.pairwise_singleton _ _

end Pprof.Given

namespace Pprof.Report

open Given

theorem cpuTime_iff_largest :
    (∃ p, (counted 9223372036 99).pprof (.last _) = some p ∧
      (counted 9223372036 99).ExactTimes p) ↔ (counted 9223372036 99).FitsTimes :=
  cpuTime_iff (counted 9223372036 99) (.last _) (by decide) ⟨0, none, rfl⟩

/-- One sample more wraps to a negative time, and so does a negative
frequency. -/
theorem not_exactTimes_counted :
    (((counted 9223372037 99).pprof (.last _)).map fun p => p.sample.map Protos.Sample.value)
      = some [[9223372037, -93165374108177289]] ∧
    (¬ ∃ p, (counted 9223372037 99).pprof (.last _) = some p ∧
      (counted 9223372037 99).ExactTimes p) ∧
    (((counted 3 (-1000)).pprof (.last _)).map fun p => p.sample.map Protos.Sample.value)
      = some [[3, -3000000]] ∧
    ¬ ∃ p, (counted 3 (-1000)).pprof (.last _) = some p ∧
      (counted 3 (-1000)).ExactTimes p := by
  refine ⟨?_, ?_, ?_, ?_⟩
  · decide +kernel
  · rintro ⟨p, _, h⟩
    exact absurd h.products (by decide)
  · decide +kernel
  · rintro ⟨p, hp, h⟩
    rw [pprof_eq_of_divides (.last _) (divides_of_pprof hp)] at hp
    obtain rfl := Option.some.inj hp
    have hfits := fitsTimes_of_exactTimes (by decide) (by decide) h
    obtain hpos | hlt := hfits.frequency
    · exact absurd hpos (by decide)
    · exact absurd (hlt _ List.mem_cons_self) (by decide)

end Pprof.Report
