/-
The CPU time of a profile and the interval of the timer.

`Timer::new` arms `ITIMER_PROF` with whole microseconds, so at most frequencies
the signal comes a little more often than asked for.  `pprof` computes the CPU
time of a sample and the period from the frequency, not from the interval, and
rounds both down to nanoseconds.

* `Timed` — the armed timer has the interval of the guard that is alive;
* `quotient_bounds` — what the two roundings make of a count;
* `State.cpu_covers_interval` — so the CPU time of a profile is what the armed
  timer accounts for, up to less than a microsecond for each sample.
-/
import Pprof.Arming
import Pprof.CpuTime
import Pprof.Guards
import Pprof.Uploads

open ByteFile Transition Weight Wrapping

namespace Pprof

/-- The time in nanoseconds. -/
def Timeval.nanos (tv : Timeval) : ℤ := (tv.tvSec * 1000000 + tv.tvUsec) * 1000

theorem nanos_interval (frequency : ℤ) :
    (Timer.interval frequency).nanos = (1000000 : ℤ).tdiv frequency * 1000 := by
  have hsum := Int.mul_tdiv_add_tmod ((1000000 : ℤ).tdiv frequency) 1000000
  rw [Timeval.nanos, Timer.interval]
  simp only
  omega

/-! ### Rounding -/

/-- The CPU time of a count lies between the intervals, and the intervals with a
microsecond more each. -/
theorem quotient_bounds {frequency count : ℤ} (hfrequency : 0 < frequency) (hcount : 0 < count) :
    count * (Timer.interval frequency).nanos ≤ (count * 1000000000).tdiv frequency ∧
    (count * 1000000000).tdiv frequency < count * ((Timer.interval frequency).nanos + 1000) := by
  rw [nanos_interval, Int.tdiv_eq_ediv_of_nonneg (by omega), Int.tdiv_eq_ediv_of_nonneg (by omega)]
  have hle := Int.ediv_mul_le 1000000 hfrequency.ne'
  have hlt := Int.lt_ediv_add_one_mul_self 1000000 hfrequency
  -- `micros ≤ 1000000 / frequency < micros + 1`, times a thousand for each sample
  set micros := (1000000 : ℤ) / frequency
  constructor
  · rw [Int.le_ediv_iff_mul_le hfrequency]
    calc count * (micros * 1000) * frequency = count * 1000 * (micros * frequency) := by ring
      _ ≤ count * 1000 * 1000000 := Int.mul_le_mul_of_nonneg_left hle (by omega)
      _ = count * 1000000000 := by ring
  · rw [Int.ediv_lt_iff_lt_mul hfrequency]
    calc count * 1000000000 = count * 1000 * 1000000 := by ring
      _ < count * 1000 * ((micros + 1) * frequency) :=
        Int.mul_lt_mul_of_pos_left hlt (by omega)
      _ = count * (micros * 1000 + 1000) * frequency := by ring

/-- Bounds of the parts are bounds of the sums. -/
theorem sum_bounds {α : Type*} {l : List α} {f g : α → ℤ} {lo hi : ℤ}
    (h : ∀ a ∈ l, f a * lo ≤ g a ∧ g a < f a * hi) :
    (l.map f).sum * lo ≤ (l.map g).sum ∧ (l.map g).sum ≤ (l.map f).sum * hi ∧
      (l ≠ [] → (l.map g).sum < (l.map f).sum * hi) := by
  induction l with
  | nil => exact ⟨by simp, by simp, fun hne => absurd rfl hne⟩
  | cons a l ih =>
    obtain ⟨hlo, hhi⟩ := h a List.mem_cons_self
    obtain ⟨hlo', hhi', _⟩ := ih fun b hb => h b (List.mem_cons_of_mem a hb)
    rw [List.map_cons, List.map_cons, List.sum_cons, List.sum_cons, add_mul, add_mul]
    exact ⟨by omega, by omega, fun _ => by omega⟩

/-- The sum of the `i`-th values of the samples. -/
def Protos.Profile.sumValue (p : Protos.Profile) (i : ℕ) : ℤ :=
  (p.sample.map fun s => s.value.getD i 0).sum

variable [Demangle]

namespace Report

variable {r : Report}

/-- The CPU time of a profile lies between the intervals of its samples, and the
intervals with a microsecond more each. -/
theorem Encodes.cpu_bounds {p : Protos.Profile} (h : r.Encodes p)
    (hfrequency : 0 < r.timing.frequency)
    (hcounts : ∀ entry ∈ r.data, 0 < entry.2 ∧ entry.2 ≤ 9223372036) :
    p.sumValue 0 = r.total ∧
    r.total * (Timer.interval r.timing.frequency).nanos ≤ p.sumValue 1 ∧
    p.sumValue 1 ≤ r.total * ((Timer.interval r.timing.frequency).nanos + 1000) ∧
    (r.data ≠ [] →
      p.sumValue 1 < r.total * ((Timer.interval r.timing.frequency).nanos + 1000)) ∧
    p.period = (1000000000 : ℤ).tdiv r.timing.frequency := by
  obtain ⟨q, order, hperm, htiming, hp⟩ := h
  rw [← htiming] at hfrequency ⊢
  have hqcounts : ∀ entry ∈ q.data, 0 < entry.2 ∧ entry.2 ≤ 9223372036 := fun entry hentry =>
    hcounts entry (hperm.mem_iff.mp hentry)
  have htotal : q.total = r.total := (hperm.map Prod.snd).sum_eq
  have hne : r.data ≠ [] ↔ q.data ≠ [] := by
    rw [ne_eq, ne_eq, ← List.perm_nil, ← List.perm_nil, hperm.congr_left]
  rw [pprof_eq order hfrequency] at hp
  obtain rfl := Option.some.inj hp
  have hvalue : ∀ i, (q.profile order).sumValue i
      = (q.data.map fun entry =>
          ([entry.2, (wrap 64 (entry.2 * 1000000000)).tdiv q.timing.frequency]).getD i 0).sum := by
    intro i
    rw [Protos.Profile.sumValue, profile, List.map_map]
    rfl
  have hbounds : ∀ entry ∈ q.data,
      entry.2 * (Timer.interval q.timing.frequency).nanos
          ≤ (wrap 64 (entry.2 * 1000000000)).tdiv q.timing.frequency ∧
        (wrap 64 (entry.2 * 1000000000)).tdiv q.timing.frequency
          < entry.2 * ((Timer.interval q.timing.frequency).nanos + 1000) := by
    intro entry hentry
    obtain ⟨hpos, hle⟩ := hqcounts entry hentry
    -- the product of so small a count does not wrap
    rw [wrap_eq (by decide) ((product_inRange_iff hpos).mpr hle)]
    exact quotient_bounds hfrequency hpos
  obtain ⟨hlo, hhi, hstrict⟩ := sum_bounds hbounds
  rw [hvalue 0, hvalue 1, ← htotal, hne]
  exact ⟨rfl, hlo, hhi, hstrict, rfl⟩

end Report

omit [Demangle] in
/-- The counts of a report are positive, and none exceeds their sum. -/
theorem Exact.mem_collect {K R : Type*} [BEq R] [EquivBEq R] {es : List (Entry K)} (h : Exact es)
    (key : ℕ → K → R) {p : R × ℤ} (hp : p ∈ collect key es) :
    0 < p.2 ∧ p.2 ≤ (es.map Entry.count).sum := by
  have hpos : ∀ p ∈ collect key es, 0 < p.2 := by
    intro p hp
    obtain ⟨c, hc, hcp⟩ := exists_mem_keyed hp
    rw [count_collect h key hp]
    exact weight_pos (fun c hc => h.pos _ (mem_keyed hc).1) ⟨c, hc, hcp ▸ BEq.rfl⟩
  refine ⟨hpos p hp, ?_⟩
  rw [← sum_collect h key]
  exact val_le_sum (fun p hp => (hpos p hp).le) hp

variable {F B : Type*} [Frame F] [Target] [PlainLayout (Entry (UnresolvedFrames F)) B]

namespace State

/-- The armed timer has the interval of the frequency of a guard that is alive. -/
def Timed (s : State F B) : Prop :=
  ∀ armed, s.itimer = some armed → ∃ g ∈ s.guards, g.dropping = false ∧
    0 < g.timer.frequency ∧
    armed = ⟨Timer.interval g.timer.frequency, Timer.interval g.timer.frequency⟩

variable [DefaultHasher]

/-- A step keeps it, since a timer is only armed while no guard is alive. -/
theorem Timed.step {s s' : State F B} {e : Event F} (hs : Timed s) (hsafe : Safe s)
    (h : s.step e = some s') : Timed s' := by
  cases Step.of_step h with
  | @armed b timer itimer startTime startInstant hholder hnew =>
    intro armed harmed
    have hguards := (hsafe.started b hholder).2.1
    -- no guard is alive, so the timer is not armed
    have hnone : s.itimer = none := by
      rw [← Option.not_isSome_iff_eq_none]
      refine hsafe.not_armed fun g hg => ?_
      rw [hguards] at hg
      cases hg
    rw [hnone] at hnew
    have hitimer : itimer = some armed := harmed
    have hvalid := Timer.valid_of_new hnew (by rw [hitimer]; rfl)
    rw [Timer.new, Timer.newWith] at hnew
    split at hnew
    · cases hnew
    · rename_i hzero
      obtain ⟨rfl, hset⟩ := Prod.mk.inj (Option.some.inj hnew)
      rw [setitimer, if_pos (by simp [hvalid]), hitimer] at hset
      obtain ⟨hne, hset⟩ := Option.ite_none_left_eq_some.mp hset
      obtain ⟨hpos, _⟩ := (Timer.arms_iff b.frequency).mp ⟨hvalid, hne⟩
      exact ⟨_, List.mem_cons_self, rfl, hpos, (Option.some.inj hset).symm⟩
  | @disarmed g x hx hid hdropping =>
    intro armed harmed
    cases harmed
  | @released g hholder =>
    intro armed harmed
    obtain ⟨x, hx, hintact, _⟩ := hs armed harmed
    rw [(hsafe.dropping_of_stopping (.inr hholder) hx).2] at hintact
    cases hintact
  | delivered =>
    have hitimer : s.deliver.itimer = s.itimer := by
      rw [deliver]
      cases s.action.handler <;> rfl
    rw [Timed, hitimer, deliver_guards]
    exact hs
  | _ => exact hs

/-- **A profile accounts for the CPU time that the armed timer measures.**  In a
process without failures and overflow, while the timer is armed: it was armed by
a guard that is alive, with one interval, and in every profile of the report
that `build` returns with the timing of that guard, the counts add up to the
samples, and the CPU times to that many intervals, or more by less than a
microsecond for each sample.  The period is the interval, so rounded. -/
theorem cpu_covers_interval {s₀ s : State F B} (hinit : Init s₀) {es : List (Event F)}
    (hrun : run step s₀ es = some s) (hclean : Along step Clean s₀ es) {armed : Itimerval}
    (harmed : s.itimer = some armed) {p : Profiler F B} (hp : s.profiler = .ok p) :
    ∃ g ∈ s.guards, g.dropping = false ∧ armed.itValue = armed.itInterval ∧
      ∀ (rb : ReportBuilder) perfmap now, rb.timing = g.timer.timing now →
        ∃ r, rb.build Io.ok perfmap (.ok p) = (.ok r, .ok p) ∧ ∀ profile, r.Encodes profile →
          profile.sumValue 0 = s.window.length ∧
          s.window.length * armed.itInterval.nanos ≤ profile.sumValue 1 ∧
          profile.sumValue 1 ≤ s.window.length * (armed.itInterval.nanos + 1000) ∧
          (s.window ≠ [] →
            profile.sumValue 1 < s.window.length * (armed.itInterval.nanos + 1000)) ∧
          armed.itInterval.nanos ≤ profile.period ∧
          profile.period < armed.itInterval.nanos + 1000 := by
  have hstart : Timed s₀ := by
    intro armed harmed
    rw [hinit.itimer] at harmed
    cases harmed
  have htimed : Safe s ∧ Timed s :=
    run_invariant (I := fun s : State F B => Safe s ∧ Timed s)
      (fun _ _ _ hs h => ⟨hs.1.step h, hs.2.step hs.1 h⟩) ⟨hinit.safe, hstart⟩ hrun
  have htracked : Tracked s :=
    run_invariant_along (fun _ _ _ hs hc h => hs.step hc h) hinit.tracked hclean hrun
  obtain ⟨g, hg, hintact, hfrequency, rfl⟩ := htimed.2 armed harmed
  refine ⟨g, hg, hintact, rfl, fun rb perfmap now htiming => ?_⟩
  obtain ⟨items, hitems, _, hbuild⟩ := htracked.build hp rb perfmap
  refine ⟨_, hbuild, fun profile hencodes => ?_⟩
  have hexact := hitems.exact (htracked.lt hp)
  have htotal : (rb.report perfmap items).total = s.window.length := by
    rw [← hitems.sum]
    exact sum_collect hexact _
  have hfew := (htracked p hp).2.1
  have hcounts : ∀ entry ∈ (rb.report perfmap items).data, 0 < entry.2 ∧ entry.2 ≤ 9223372036 := by
    intro entry hentry
    obtain ⟨hpos, hle⟩ := hexact.mem_collect _ hentry
    rw [hitems.sum] at hle
    exact ⟨hpos, by omega⟩
  have hrate : (rb.report perfmap items).timing.frequency = g.timer.frequency := by
    show rb.timing.frequency = _
    rw [htiming]
    rfl
  obtain ⟨hsum, hlo, hhi, hstrict, hperiod⟩ := hencodes.cpu_bounds (by rw [hrate]; exact hfrequency)
    hcounts
  rw [htotal] at hsum hlo hhi hstrict
  rw [hrate] at hlo hhi hstrict hperiod
  -- the period is the CPU time of one sample
  have hone := quotient_bounds hfrequency Int.one_pos
  rw [one_mul, one_mul, one_mul, ← hperiod] at hone
  refine ⟨hsum, hlo, hhi, fun hne => hstrict fun hnil => hne ?_, hone⟩
  rw [Report.total, hnil] at htotal
  exact List.length_eq_zero_iff.mp (Int.natCast_inj.mp htotal.symm)

end State

end Pprof

namespace Pprof.State

open Functions

/-- At 99 Hz the timer has 10101 microseconds, a little less than asked for. -/
theorem cpu_covers_interval_default :
    ∃ (s : State Function Item) (p : Profiler Function Item) (g : Guard) (r : Report),
      run step (idle true) (buildCall .default true ++ sampling 0x4028B0) = some s ∧
      g ∈ s.guards ∧ s.itimer = some ⟨⟨0, 10101⟩, ⟨0, 10101⟩⟩ ∧
      (⟨none, g.timer.timing 5⟩ : ReportBuilder).build Io.ok (fun _ _ _ => none) (.ok p)
        = (.ok r, .ok p) ∧
      ∀ profile, r.Encodes profile →
        10101000 ≤ profile.sumValue 1 ∧ profile.sumValue 1 < 10102000 := by
  have hsees : (run step (idle true : State Function Item)
      (buildCall .default true ++ sampling 0x4028B0)).map
        (fun s => (s.itimer, s.window.length, s.running))
      = some (some ⟨⟨0, 10101⟩, ⟨0, 10101⟩⟩, 1, true) := by decide +kernel
  obtain ⟨s, hrun, hs⟩ := Option.map_eq_some_iff.mp hsees
  obtain ⟨harmed, hlength, hrunning⟩ := by simpa only [Prod.mk.injEq] using hs
  obtain ⟨p, hp, _⟩ := running_eq_true.mp hrunning
  have hclean : Along step Clean (idle true : State Function Item)
      (buildCall .default true ++ sampling 0x4028B0) := by decide +kernel
  obtain ⟨g, hg, _, _, hreport⟩ :=
    cpu_covers_interval (idle_init true) hrun hclean harmed hp
  obtain ⟨r, hbuild, hprofile⟩ :=
    hreport ⟨none, g.timer.timing 5⟩ (fun _ _ _ => none) 5 rfl
  refine ⟨s, p, g, r, hrun, hg, harmed, hbuild, fun profile hencodes => ?_⟩
  obtain ⟨_, hlo, _, hhi, _⟩ := hprofile profile hencodes
  rw [hlength] at hlo hhi
  have hne : s.window ≠ [] := List.ne_nil_of_length_pos (by omega)
  exact ⟨hlo, hhi hne⟩

end Pprof.State
