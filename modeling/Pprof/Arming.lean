/-
What `build` does with a frequency.

`build` marks the profiler as running, and only then computes the interval of
the timer: a zero frequency panics in the division, with the profiler marked
running, and for a negative or a very large one the interval is not one that
arms a timer, which `build` does not notice.

* `valid_of_microseconds` — an interval that is a number of microseconds is
  normalised when the number is not negative;
* `tdiv_pos_iff` — when the division gives at least one microsecond;
* `Itimer` — the timer of the process, with the calls of `setitimer` recorded;
* `armsOrStartsNothing_iff` — for which frequencies `build` keeps its word.
-/
import Pprof.Profiler

namespace Pprof

/-! ### The interval -/

/-- A timer can be armed with the value. -/
def Timeval.arms (tv : Timeval) : Prop := tv.valid = true ∧ tv ≠ ⟨0, 0⟩

theorem valid_of_microseconds (q : ℤ) :
    (⟨q.tdiv 1000000, q.tmod 1000000⟩ : Timeval).valid = true ↔ 0 ≤ q := by
  have hvalid : (⟨q.tdiv 1000000, q.tmod 1000000⟩ : Timeval).valid = true ↔
      (0 ≤ q.tdiv 1000000 ∧ 0 ≤ q.tmod 1000000) ∧ q.tmod 1000000 < 1000000 := by
    simp [Timeval.valid]
  rw [hvalid]
  constructor
  · rintro ⟨⟨hsec, husec⟩, _⟩
    have hsum := Int.mul_tdiv_add_tmod q 1000000
    omega
  · intro hq
    rw [Int.tdiv_eq_ediv_of_nonneg hq, Int.tmod_eq_emod_of_nonneg hq]
    omega

theorem zero_of_microseconds (q : ℤ) :
    (⟨q.tdiv 1000000, q.tmod 1000000⟩ : Timeval) = ⟨0, 0⟩ ↔ q = 0 := by
  rw [Timeval.mk.injEq]
  constructor
  · rintro ⟨hsec, husec⟩
    have hsum := Int.mul_tdiv_add_tmod q 1000000
    omega
  · rintro rfl
    exact ⟨rfl, rfl⟩

/-- A frequency gives at least one microsecond when it is positive and at most a
million. -/
theorem tdiv_pos_iff (frequency : ℤ) :
    0 < (1000000 : ℤ).tdiv frequency ↔ 1 ≤ frequency ∧ frequency ≤ 1000000 := by
  obtain hneg | hpos := lt_or_ge frequency 0
  · -- a negative frequency gives a negative number, or zero
    have hle : (1000000 : ℤ).tdiv frequency ≤ 0 := by
      have hnonneg := Int.tdiv_nonneg (a := 1000000) (b := -frequency) (by omega) (by omega)
      rw [Int.tdiv_neg] at hnonneg
      omega
    omega
  · rw [Int.tdiv_eq_ediv_of_nonneg (by omega)]
    obtain rfl | hpos : frequency = 0 ∨ 0 < frequency := by omega
    · rw [Int.ediv_zero]
      omega
    · have hone : 0 < 1000000 / frequency ↔ 1 * frequency ≤ 1000000 := by
        rw [← Int.le_ediv_iff_mul_le hpos]
        omega
      rw [hone]
      omega

/-- The frequencies whose interval arms a timer. -/
theorem Timer.arms_iff (frequency : ℤ) :
    (interval frequency).arms ↔ 1 ≤ frequency ∧ frequency ≤ 1000000 := by
  rw [Timeval.arms, interval, valid_of_microseconds, ne_eq, zero_of_microseconds,
    ← tdiv_pos_iff]
  omega

theorem setitimer_of_arms {itimer : Option Itimerval} {value : Itimerval}
    (hinterval : value.itInterval.arms) (hvalue : value.itValue.arms) :
    setitimer itimer value = some value := by
  rw [setitimer, if_pos (by rw [hinterval.1, hvalue.1]; rfl), if_neg hvalue.2]

/-! ### The whole call -/

/-- `ITIMER_PROF`, and the values that `setitimer` has received, in order. -/
structure Itimer where
  armed : Option Itimerval
  received : List Itimerval
  deriving DecidableEq

/-- A call of `setitimer` that is recorded. -/
def Itimer.setitimer (itimer : Itimer) (value : Itimerval) : Itimer :=
  ⟨Pprof.setitimer itimer.armed value, itimer.received ++ [value]⟩

/-- The record is all that is added to `Timer::new`. -/
theorem Timer.newWith_setitimer (frequency : ℤ) (startTime : SystemTime) (startInstant : Instant)
    (itimer : Itimer) :
    (newWith Itimer.setitimer frequency startTime startInstant itimer).map
        (fun out => (out.1, out.2.armed))
      = new frequency startTime startInstant itimer.armed := by
  rw [new, newWith, newWith]
  split <;> rfl

/-- How `build` ends. -/
inductive Built where
  | guard (timer : Timer)
  | failed (err : Error)
  | panicked
  deriving DecidableEq

variable [Target] {F B : Type*}

namespace ProfilerGuardBuilder

/-- What a call of `build` leaves behind, and the calls of `setitimer` in it. -/
structure AfterBuild (F B : Type*) where
  result : Built
  profiler : Except Error (Profiler F B)
  action : SigAction
  itimer : Itimer

/-- `ProfilerGuardBuilder::build`. -/
def build (sigOk : Bool) (startTime : SystemTime) (startInstant : Instant) (action : SigAction)
    (itimer : Option Itimerval) (b : ProfilerGuardBuilder)
    (profiler : Except Error (Profiler F B)) : AfterBuild F B :=
  match b.start sigOk action profiler with
  | (.ok (), profiler, action) =>
    match Timer.newWith Itimer.setitimer b.frequency startTime startInstant ⟨itimer, []⟩ with
    | some (timer, itimer) => ⟨.guard timer, profiler, action, itimer⟩
    -- the panic releases the lock of `PROFILER` and leaves the profiler started
    | none => ⟨.panicked, profiler, action, ⟨itimer, []⟩⟩
  | (.error err, profiler, action) => ⟨.failed err, profiler, action, ⟨itimer, []⟩⟩

/-- `build` of a profiler that is not running, with a `sigaction` that works: it
starts the profiler, and then makes the timer, if it can divide. -/
theorem build_of_not_running {p : Profiler F B} (hrun : p.running = false)
    (startTime : SystemTime) (startInstant : Instant) (action : SigAction)
    (itimer : Option Itimerval) (b : ProfilerGuardBuilder) :
    ∃ q : Profiler F B, q.running = true ∧
      b.build true startTime startInstant action itimer (.ok p) =
        if b.frequency = 0 then ⟨.panicked, .ok q, .handle b.onStack, ⟨itimer, []⟩⟩
        else ⟨.guard ⟨b.frequency, startTime, startInstant⟩, .ok q, .handle b.onStack,
          Itimer.setitimer ⟨itimer, []⟩
            ⟨Timer.interval b.frequency, Timer.interval b.frequency⟩⟩ := by
  obtain ⟨hrun', _⟩ | ⟨_, hsig, _⟩ | ⟨_, _, hstart⟩ := b.start_cases true action p
  · rw [hrun] at hrun'
    cases hrun'
  · cases hsig
  · refine ⟨{ b.configure p with oldSigaction := some action, running := true }, rfl, ?_⟩
    rw [build, hstart]
    simp only [Timer.newWith]
    by_cases hzero : b.frequency = 0
    · simp only [hzero, if_true]
    · simp only [hzero, if_false]

/-- After the call the profiler is not running, and a `build` with a frequency
that arms a timer succeeds. -/
def AfterBuild.Restartable (s : AfterBuild F B) : Prop :=
  ∃ p, s.profiler = .ok p ∧ p.running = false ∧
    ∀ (b : ProfilerGuardBuilder) startTime startInstant, (Timer.interval b.frequency).arms →
      ∃ timer, (b.build true startTime startInstant s.action s.itimer.armed s.profiler).result
        = .guard timer

/-- `build` has returned a guard, and in it `setitimer` has received an interval
that arms the timer, which is armed with it; or it has returned none and started
nothing. -/
def AfterBuild.ArmsOrStartsNothing (s : AfterBuild F B) : Prop :=
  (∃ timer value, s.result = .guard timer ∧ s.itimer.received = [value] ∧
    value.itInterval.arms ∧ value.itValue.arms ∧ s.itimer.armed = some value) ∨
  ((∀ timer, s.result ≠ .guard timer) ∧ s.Restartable)

/-- **Which frequencies arm a timer or start nothing.**  For a profiler that is
not running and a `sigaction` that works, `build` does the one or the other if
and only if the frequency is from one to a million. -/
theorem armsOrStartsNothing_iff {p : Profiler F B} (hrun : p.running = false)
    (b : ProfilerGuardBuilder) (startTime : SystemTime) (startInstant : Instant)
    (action : SigAction) (itimer : Option Itimerval) :
    (b.build true startTime startInstant action itimer (.ok p)).ArmsOrStartsNothing ↔
      1 ≤ b.frequency ∧ b.frequency ≤ 1000000 := by
  obtain ⟨q, hq, hbuild⟩ := build_of_not_running hrun startTime startInstant action itimer b
  rw [hbuild, ← Timer.arms_iff]
  constructor
  · rintro (⟨_, value, _, hreceived, harms, _⟩ | ⟨_, q', hq', hstopped, _⟩)
    · split at hreceived
      · cases hreceived
      · obtain rfl := List.singleton_inj.mp hreceived
        exact harms
    · -- the profiler was started, whatever came after
      have hsame : q = q' := by
        split at hq' <;> exact Except.ok.inj hq'
      rw [← hsame, hq] at hstopped
      cases hstopped
  · intro harms
    have hne : b.frequency ≠ 0 := by
      have hfrequency := (Timer.arms_iff b.frequency).mp harms
      omega
    rw [if_neg hne]
    exact .inl ⟨_, _, rfl, rfl, harms, harms, setitimer_of_arms harms harms⟩

end ProfilerGuardBuilder

end Pprof

/-! ### Given frequencies -/

namespace Pprof.ProfilerGuardBuilder

local instance : Target := Target.linux

/-- A builder that asks for this frequency. -/
def frequencyOf (frequency : ℤ) : ProfilerGuardBuilder :=
  { ProfilerGuardBuilder.default with frequency := frequency }

theorem armsOrStartsNothing_default :
    ∃ p : Profiler ℕ (Entry (UnresolvedFrames ℕ)), Profiler.new true = .ok p ∧
      (ProfilerGuardBuilder.default.build true 0 0 .ignore none (.ok p)).ArmsOrStartsNothing := by
  refine ⟨_, rfl, (armsOrStartsNothing_iff rfl .default 0 0 .ignore none).mpr ?_⟩
  decide

/-- A zero frequency panics, and the next `build` finds the profiler running; a
negative one and one above a million return guards without a timer. -/
theorem not_armsOrStartsNothing :
    ∃ p : Profiler ℕ (Entry (UnresolvedFrames ℕ)), Profiler.new true = .ok p ∧
      ((frequencyOf 0).build true 0 0 .ignore none (.ok p)).result = .panicked ∧
      (ProfilerGuardBuilder.default.build true 0 0
        ((frequencyOf 0).build true 0 0 .ignore none (.ok p)).action none
        ((frequencyOf 0).build true 0 0 .ignore none (.ok p)).profiler).result
          = .failed .running ∧
      ¬ ((frequencyOf 0).build true 0 0 .ignore none (.ok p)).ArmsOrStartsNothing ∧
      (∀ frequency ∈ [-1, 1000001],
        ((frequencyOf frequency).build true 0 0 .ignore none (.ok p)).result
          = .guard ⟨frequency, 0, 0⟩) ∧
      ((frequencyOf (-1)).build true 0 0 .ignore none (.ok p)).itimer
        = ⟨none, [⟨⟨-1, 0⟩, ⟨-1, 0⟩⟩]⟩ ∧
      ((frequencyOf 1000001).build true 0 0 .ignore none (.ok p)).itimer
        = ⟨none, [⟨⟨0, 0⟩, ⟨0, 0⟩⟩]⟩ := by
  refine ⟨_, rfl, rfl, rfl, ?_, by decide, by decide, by decide⟩
  rintro (⟨timer, _, hguard, _⟩ | ⟨_, q, hq, hstopped, _⟩)
  · cases hguard
  · obtain rfl := Except.ok.inj hq
    cases hstopped

end Pprof.ProfilerGuardBuilder
