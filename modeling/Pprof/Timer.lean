/-
The profiling timer of the process.

`Timer` follows `timer.rs`.  `ITIMER_PROF` is one timer of the process: either
it is not armed, or it holds the interval it was last armed with.  `setitimer`
refuses an interval that is not normalised, and arming with a zero value
disarms; the answer of the call is not looked at by the source.
-/
import Mathlib

namespace Pprof

/-- `std::time::SystemTime`, in nanoseconds from `UNIX_EPOCH`. -/
abbrev SystemTime := ℤ

/-- `std::time::Duration`, in nanoseconds. -/
abbrev Duration := ℕ

/-- `std::time::Instant`, in nanoseconds of a clock that does not go back. -/
abbrev Instant := ℕ

structure Timeval where
  tvSec : ℤ
  tvUsec : ℤ
  deriving DecidableEq

structure Itimerval where
  itInterval : Timeval
  itValue : Timeval
  deriving DecidableEq

/-- A `Timeval` that `setitimer` takes. -/
def Timeval.valid (tv : Timeval) : Bool := 0 ≤ tv.tvSec && 0 ≤ tv.tvUsec && tv.tvUsec < 1000000

/-- `setitimer(ITIMER_PROF, ..)`: the timer after the call, `none` when it is
not armed.  A value that is not valid leaves it as it is. -/
def setitimer (current : Option Itimerval) (new : Itimerval) : Option Itimerval :=
  if new.itInterval.valid && new.itValue.valid then
    if new.itValue = ⟨0, 0⟩ then none else some new
  else current

/-- Timing metadata of a report. -/
structure ReportTiming where
  frequency : ℤ
  startTime : SystemTime
  duration : Duration
  deriving DecidableEq

/-- `ReportTiming::default`. -/
def ReportTiming.default : ReportTiming := ⟨1, 0, 0⟩

structure Timer where
  frequency : ℤ
  startTime : SystemTime
  startInstant : Instant
  deriving DecidableEq

namespace Timer

/-- The interval `Timer::new` computes, with the division of `i64`. -/
def interval (frequency : ℤ) : Timeval :=
  let interval := (1000000 : ℤ).tdiv frequency
  ⟨interval.tdiv 1000000, interval.tmod 1000000⟩

/-- `Timer::new`, where a call of `setitimer` does `set` to what is known of the
timer of the process; `none` when the division by a zero frequency panics. -/
def newWith {T : Type*} (set : T → Itimerval → T) (frequency : ℤ) (startTime : SystemTime)
    (startInstant : Instant) (itimer : T) : Option (Timer × T) :=
  if frequency = 0 then none
  else
    some (⟨frequency, startTime, startInstant⟩,
      set itimer ⟨interval frequency, interval frequency⟩)

/-- `Timer::new`: the timer object and `ITIMER_PROF` after the call. -/
def new (frequency : ℤ) (startTime : SystemTime) (startInstant : Instant)
    (itimer : Option Itimerval) : Option (Timer × Option Itimerval) :=
  newWith setitimer frequency startTime startInstant itimer

/-- `Timer::timing` at the instant `now`. -/
def timing (t : Timer) (now : Instant) : ReportTiming :=
  ⟨t.frequency, t.startTime, now - t.startInstant⟩

/-- `Timer::drop`: `ITIMER_PROF` after the call. -/
def drop (itimer : Option Itimerval) : Option Itimerval := setitimer itimer ⟨⟨0, 0⟩, ⟨0, 0⟩⟩

/-- Only a valid interval arms the timer. -/
theorem valid_of_new {frequency : ℤ} {startTime : SystemTime} {startInstant : Instant} {t : Timer}
    {itimer : Option Itimerval}
    (h : new frequency startTime startInstant none = some (t, itimer)) (ht : itimer.isSome) :
    (interval frequency).valid = true := by
  rw [new, newWith] at h
  split at h
  · cases h
  · obtain ⟨_, rfl⟩ := Prod.mk.inj (Option.some.inj h)
    by_contra hv
    rw [setitimer, if_neg (by simp [hv])] at ht
    cases ht

/-- Dropping a timer disarms `ITIMER_PROF`, whoever armed it. -/
theorem drop_eq_none (itimer : Option Itimerval) : drop itimer = none := by
  show setitimer itimer ⟨⟨0, 0⟩, ⟨0, 0⟩⟩ = none
  rw [setitimer, if_pos (by decide), if_pos rfl]

end Timer

end Pprof
