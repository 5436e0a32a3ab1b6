/-
The handler as it is written.

In the model of the process an invocation of the handler is given the frames that
the unwinder shows, the address and the name of the thread.  Here all of it comes
from where `perf_signal_handler` takes it: the context, which may be null, the
memory that the unwinder built in walks through, and the buffer of 16 bytes that
`write_thread_name` fills and that is read as a C string.  A walk that does not
end, a fault, an index out of range and a name that does not end in the buffer are
all possible.

* `Signal.unwind_eq`, `Signal.name_ok` — but none of them happens, if the system
  gives names as it says;
* `Profiler.signalHandler_eq` — the handler is the one of the process;
* `State.signals_refine` — so the runs of such handlers are runs of the process,
  and what the collector gives back was handed to it, with no more frames than fit
  into an entry.
-/
import Pprof.FramePointers
import Pprof.Hops
import Pprof.Ledger
import Pprof.NameFallback

open ByteFile Decimal Transition

namespace Pprof

/-! ### An invocation -/

/-- What an invocation of `perf_signal_handler` finds. -/
structure Signal where
  /-- `none` is a null pointer. -/
  ucontext : Option Ucontext
  mem : Memory
  /-- `UNWINDER` can be taken. -/
  locked : Bool
  /-- `pthread_self`. -/
  thread : UInt64
  /-- What `pthread_getname_np` leaves in the buffer, `none` where it fails or is
  not called. -/
  getName : Option (List UInt8)
  now : SystemTime

/-- Where the handler does not return. -/
inductive Trap where
  /-- Memory is accessed that must not be. -/
  | fault
  /-- An index is out of range. -/
  | panic

/-- The fallback leaves a C string in the buffer, if the number has few enough digits. -/
theorem fallback_ends {t : UInt64} (h : t.toNat ≤ 10 ^ (MAX_THREAD_NAME - 1)) :
    ∃ name, writeThreadNameFallback t zeroedName = some name ∧ 0 ∈ name ∧
      (beforeNul name).length ≤ MAX_THREAD_NAME := by
  obtain ⟨len, hlen, hname, hbelow, _⟩ := fallback_eq t
  obtain hfull | hroom := Nat.eq_or_lt_of_le hlen
  · -- sixteen powers of ten lie below the number
    have hmax : MAX_THREAD_NAME = 16 := rfl
    have hlt := hbelow (MAX_THREAD_NAME - 1) (by omega)
    omega
  · rw [zeros_eq hroom] at hname
    refine ⟨_, hname, List.mem_append_right _ List.mem_cons_self, ?_⟩
    rw [beforeNul_digits, length_lowDigits]
    exact hlen

namespace Signal

/-- `write_thread_name`, into the zeroed buffer. -/
def writeThreadName (sig : Signal) : Option (List UInt8) :=
  match sig.getName with
  | some name => some name
  | none => writeThreadNameFallback sig.thread zeroedName

/-- The name that `UnresolvedFrames::new` gets: the bytes of the C string in the
buffer. -/
def name (sig : Signal) : Except Trap ThreadName :=
  match sig.writeThreadName with
  | none => .error .panic
  | some name =>
    -- `CStr::from_ptr` goes on behind the buffer
    if 0 ∉ name then .error .fault
    else if h : (beforeNul name).length ≤ MAX_THREAD_NAME then .ok ⟨beforeNul name, h⟩
    else .error .panic

/-- `pthread_getname_np` leaves a C string in the buffer; where it does not, the
number of the thread has few enough digits. -/
def Named (sig : Signal) : Prop :=
  match sig.getName with
  | some name => name.length ≤ MAX_THREAD_NAME ∧ 0 ∈ name
  | none => sig.thread.toNat ≤ 10 ^ (MAX_THREAD_NAME - 1)

theorem name_ok {sig : Signal} (h : sig.Named) : ∃ name, sig.name = .ok name := by
  obtain ⟨name, hname, hzero, hlength⟩ : ∃ name, sig.writeThreadName = some name ∧ 0 ∈ name ∧
      (beforeNul name).length ≤ MAX_THREAD_NAME := by
    rw [Named] at h
    rw [writeThreadName]
    cases hget : sig.getName with
    | some name =>
      rw [hget] at h
      exact ⟨name, rfl, h.2, (List.takeWhile_sublist _).length_le.trans h.1⟩
    | none =>
      rw [hget] at h
      exact fallback_ends h
  refine ⟨⟨beforeNul name, hlength⟩, ?_⟩
  rw [Signal.name, hname]
  simp only [hzero, not_true_eq_false, if_false, dif_pos hlength]

variable [Target] [Unwinder] [Symbolizer] {B : Type*}

/-- `TraceImpl::trace` with the closure of the handler; `none` is no answer after
so many rounds. -/
def unwind (sig : Signal) (p : Profiler IpFrame B) (fuel : ℕ) :
    Option (Except Trap (List IpFrame)) :=
  match sig.ucontext with
  | none => some (.ok [])
  | some uc =>
    let walked :=
      if Target.framePointer then
        (walk sig.mem p.pushFrame fuel 0 uc.framePointer []).map Walked.state
      else (hopTrace uc sig.mem sig.locked p.pushFrame fuel []).map Hopped.state
    walked.map fun bt => bt.elim (Except.error .fault) Except.ok

/-- The frames that the unwinder shows. -/
def frames (sig : Signal) : List IpFrame :=
  sig.ucontext.elim [] fun uc => Trace.frames uc sig.mem sig.locked Target.maxDepth

/-- The walk of the handler ends without a fault, and leaves what is kept of the
frames. -/
theorem unwind_eq (sig : Signal) (p : Profiler IpFrame B) {fuel : ℕ}
    (hfuel : Target.maxDepth < fuel) : sig.unwind p fuel = some (.ok (p.backtrace sig.frames)) := by
  rw [unwind, frames]
  cases sig.ucontext with
  | none =>
    show some (Except.ok []) = some (Except.ok (p.backtrace []))
    rw [Profiler.backtrace_eq, List.takeWhile_nil, List.take_nil]
  | some uc =>
    simp only [Option.elim_some]
    split
    · -- the frame-pointer walk, and then framehop, each with its own termination
      rename_i hbuild
      have htrace := p.trace_pushFrame uc sig.mem sig.locked hfuel
      rw [Trace.trace, if_pos hbuild] at htrace
      rw [walk_state, htrace]
      rfl
    · rename_i hbuild
      obtain ⟨w, stack, hw, hguarded⟩ :=
        p.exists_guardedWalk (Bool.eq_false_iff.mpr hbuild) uc sig.mem sig.locked hfuel
      rw [hw, Option.map_some, hguarded.state, hguarded.recorded]
      rfl

/-- What the invocation is in the model of the process. -/
def interrupt (sig : Signal) : Interrupt IpFrame where
  addr := sig.ucontext.map Ucontext.addr
  frames := sig.frames
  threadName :=
    match sig.name with
    | .ok name => name
    | .error _ => ⟨[], Nat.zero_le _⟩
  threadId := sig.thread
  now := sig.now

end Signal

namespace Profiler

variable [Target] [Unwinder] [Symbolizer] {B : Type*}

/-- `perf_signal_handler`, once it holds the lock: the stack that it hands to
`Profiler::sample`, if it does not return before. -/
def signalHandler (p : Profiler IpFrame B) (sig : Signal) (fuel : ℕ) :
    Option (Except Trap (Option (UnresolvedFrames IpFrame))) :=
  if sig.ucontext.any fun uc => p.isBlocklisted uc.addr then some (.ok none)
  else
    (sig.unwind p fuel).map fun bt => do
      let bt ← bt
      let name ← sig.name
      return some (.new bt name sig.thread sig.now)

/-- **The handler ends, and samples what the process samples.** -/
theorem signalHandler_eq (p : Profiler IpFrame B) {sig : Signal} (hnamed : sig.Named) {fuel : ℕ}
    (hfuel : Target.maxDepth < fuel) :
    p.signalHandler sig fuel = some (.ok (p.recorded sig.interrupt)) := by
  have hany : sig.interrupt.addr.any p.isBlocklisted
      = sig.ucontext.any fun uc => p.isBlocklisted uc.addr := by
    show (sig.ucontext.map Ucontext.addr).any _ = _
    rw [Option.any_map]
  rw [signalHandler, recorded, hany]
  split
  · rfl
  · obtain ⟨name, hname⟩ := Signal.name_ok hnamed
    have hthread : sig.interrupt.threadName = name := by
      rw [Signal.interrupt]
      simp only [hname]
    rw [sig.unwind_eq p hfuel, hname, hthread]
    rfl

end Profiler

/-! ### Runs -/

/-- An event of the process where the handler is the one that is written. -/
inductive RawEvent where
  | signal (io : Io) (sig : Signal)
  /-- Anything else; the handler is none of these. -/
  | other (e : Event IpFrame)

namespace RawEvent

variable [Target] [Unwinder]

/-- The event of the process. -/
def event : RawEvent → Event IpFrame
  | signal io sig => .handle io sig.interrupt
  | other e => e

def Named : RawEvent → Prop
  | signal _ sig => sig.Named
  | other _ => True

end RawEvent

namespace State

/-- What the collector is to hold was held before, or is sampled in the step. -/
theorem step_takes {F B : Type*} [Frame F] [Target] [DefaultHasher] [Demangle]
    [PlainLayout (Entry (UnresolvedFrames F)) B] {s s' : State F B} {e : Event F}
    (h : s.step e = some s') :
    s'.window.map Sample.frames ⊆ s.window.map Sample.frames ++ samples s e := by
  have hsame : ∀ {window : List (Sample F)}, window = s.window →
      window.map Sample.frames ⊆ s.window.map Sample.frames ++ samples s e := by
    rintro _ rfl
    exact List.subset_append_left _ _
  cases Step.of_step h with
  | stopped hholder hp => exact List.nil_subset _
  | delivered => exact hsame (deliver_window s)
  | @handled v p io interrupt hholder hp =>
    -- the handler puts at most the one stack it recorded into the window
    have hsampled : ((p.recorded interrupt).toList.map
        fun frames => (⟨frames, v.session⟩ : Sample F)).map Sample.frames
          = (p.recorded interrupt).toList := by
      rw [List.map_map]
      exact List.map_id _
    simp only [samples, hholder, hp, List.map_append, hsampled]
    exact List.append_subset.mpr ⟨List.subset_append_right _ _, List.subset_append_left _ _⟩
  | @reported rb io perfmap clear hholder =>
    split
    · exact List.nil_subset _
    · exact hsame rfl
  | _ => exact hsame rfl

variable [Target] [Unwinder] [Symbolizer] [DefaultHasher] {B : Type*}
  [PlainLayout (Entry (UnresolvedFrames IpFrame)) B]

/-- What the handler hands to `Profiler::sample` in the step. -/
def handed (fuel : ℕ) (s : State IpFrame B) : RawEvent → List (UnresolvedFrames IpFrame)
  | .signal _ sig =>
    match s.holder, s.profiler with
    | .handling _, .ok p =>
      match p.signalHandler sig fuel with
      | some (.ok frames) => frames.toList
      | _ => []
    | _, _ => []
  | .other _ => []

variable [Demangle]

/-- One step of the process; there is none where the handler does not return. -/
def rawStep (fuel : ℕ) (s : State IpFrame B) : RawEvent → Option (State IpFrame B)
  | .signal io sig =>
    match s.holder, s.profiler with
    | .handling v, .ok p =>
      match p.signalHandler sig fuel with
      | some (.ok frames) =>
        some { s with
          profiler := .ok (frames.elim p fun frames => p.sample io frames), holder := .leaving
          window := frames.toList.map (fun frames => ⟨frames, v.session⟩) ++ s.window }
      | _ => none
    | .handling _, .error _ => some { s with holder := .leaving }
    | _, _ => none
  | .other (.handle _ _) => none
  | .other e => s.step e

variable {fuel : ℕ} {s s' : State IpFrame B}

/-- A signal is handled as in the process. -/
theorem rawStep_signal (hfuel : Target.maxDepth < fuel) (io : Io) {sig : Signal}
    (hnamed : sig.Named) : rawStep fuel s (.signal io sig) = s.step (.handle io sig.interrupt) := by
  have hhandler : ∀ p : Profiler IpFrame B, p.perfSignalHandler io sig.interrupt
      = (p.recorded sig.interrupt).elim p fun frames => p.sample io frames := by
    intro p
    rw [Profiler.perfSignalHandler]
    cases p.recorded sig.interrupt <;> rfl
  simp only [rawStep, step, hhandler]
  cases s.holder with
  | handling v =>
    cases s.profiler with
    | error err => rfl
    | ok p => simp only [p.signalHandler_eq hnamed hfuel]
  | _ => rfl

/-- Each step is one of the process, and hands over what is sampled there. -/
theorem step_of_rawStep (hfuel : Target.maxDepth < fuel) {e : RawEvent} (hnamed : e.Named)
    (h : rawStep fuel s e = some s') :
    s.step e.event = some s' ∧ samples s e.event = handed fuel s e := by
  cases e with
  | signal io sig =>
    refine ⟨(rawStep_signal hfuel io hnamed).symm.trans h, ?_⟩
    simp only [RawEvent.event, samples, handed]
    cases s.holder with
    | handling v =>
      cases s.profiler with
      | error err => rfl
      | ok p => simp only [p.signalHandler_eq hnamed hfuel]
    | _ => rfl
  | other e =>
    cases e with
    | handle io interrupt => cases h
    | _ => exact ⟨h, rfl⟩

omit [DefaultHasher] [PlainLayout (Entry (UnresolvedFrames IpFrame)) B] [Demangle] in
/-- A stack that is handed over has no more frames than fit into an entry. -/
theorem length_handed (hfuel : Target.maxDepth < fuel) {e : RawEvent} (hnamed : e.Named) :
    ∀ frames ∈ handed fuel s e, frames.frames.length ≤ Target.maxDepth := by
  intro frames hframes
  cases e with
  | other e => cases hframes
  | signal io sig =>
    simp only [handed] at hframes
    split at hframes
    · rename_i p _ _
      rw [p.signalHandler_eq hnamed hfuel] at hframes
      simp only [Profiler.recorded] at hframes
      split at hframes
      · cases hframes
      · obtain rfl := List.mem_singleton.mp hframes
        exact List.length_take_le _ _
    · cases hframes

section Runs

variable {s₀ : State IpFrame B} {es : List RawEvent}

/-- A handler that holds the lock returns. -/
theorem exists_rawStep (hfuel : Target.maxDepth < fuel) {v : Invocation}
    (hholder : s.holder = .handling v) (io : Io) {sig : Signal} (hnamed : sig.Named) :
    ∃ s', rawStep fuel s (.signal io sig) = some s' := by
  rw [rawStep_signal hfuel io hnamed]
  cases hp : s.profiler with
  | ok p =>
    simp only [step, hholder, hp]
    exact ⟨_, rfl⟩
  | error err =>
    simp only [step, hholder, hp]
    exact ⟨_, rfl⟩

/-- What the collector is to hold was handed to `Profiler::sample` in the run. -/
theorem window_handed (hinit : Init s₀) (hfuel : Target.maxDepth < fuel)
    (hnamed : Along (rawStep fuel) (fun _ e => e.Named) s₀ es)
    (hrun : run (rawStep fuel) s₀ es = some s) :
    s.window.map Sample.frames ⊆ trace (rawStep fuel) (handed fuel) s₀ es := by
  have htakes : ∀ (s : State IpFrame B) (e : RawEvent) s', e.Named → rawStep fuel s e = some s' →
      s'.window.map Sample.frames ⊆ s.window.map Sample.frames ++ handed fuel s e := by
    intro s e s' he h
    obtain ⟨hstep, hsamples⟩ := step_of_rawStep hfuel he h
    rw [← hsamples]
    exact step_takes hstep
  have htaken := run_takes htakes hnamed hrun
  rwa [hinit.window, List.map_nil, List.nil_append] at htaken

/-- **The written handler is the one of the process.**  In every run from the
start, where signals meet any context, memory and blocklist, and threads have
names as the system gives them: the run is one of the process, state by state; a
handler that holds the lock always returns, and neither faults nor panics; and if
no clear fails, what is read back of the collector was handed to it bit by bit in
this run, and no stack has more frames than an entry has room for, so that the
bytes in the file are all there is of it. -/
theorem signals_refine (hinit : Init s₀) (hfuel : Target.maxDepth < fuel)
    (hnamed : ∀ e ∈ es, e.Named) (hrun : run (rawStep fuel) s₀ es = some s) :
    run step s₀ (es.map RawEvent.event) = some s ∧
    (∀ v io (sig : Signal), s.holder = .handling v → sig.Named →
      ∃ s', rawStep fuel s (.signal io sig) = some s') ∧
    (Along step Fits s₀ (es.map RawEvent.event) → ∀ p, s.profiler = .ok p →
      ∀ io items, p.data.tryIter io = .ok items → ∀ entry ∈ items,
        entry.item ∈ trace (rawStep fuel) (handed fuel) s₀ es ∧
        entry.item.frames.length ≤ Target.maxDepth) := by
  -- each step of the written handler is the step of the process it stands for
  have hrun' : run step s₀ (es.map RawEvent.event) = some s :=
    run_map (fun _ _ _ he h => (step_of_rawStep hfuel he h).1) hnamed hrun
  have halong : Along (rawStep fuel) (fun _ e => e.Named) s₀ es :=
    along_of_forall (fun e he _ => hnamed e he) s₀
  have hlengths : ∀ frames ∈ trace (rawStep fuel) (handed fuel) s₀ es,
      frames.frames.length ≤ Target.maxDepth :=
    forall_mem_trace (I := fun _ => True)
      (fun _ _ _ _ he _ => ⟨trivial, length_handed hfuel he⟩) trivial halong hrun
  refine ⟨hrun', fun v io sig hholder hsig => exists_rawStep hfuel hholder io hsig,
    fun hfits p hp io items hread entry hentry => ?_⟩
  -- what a read gives was recorded, and what was recorded was handed over
  have hkept : Kept s :=
    run_invariant_along (fun _ _ _ hs he h => hs.step he h) hinit.kept hfits hrun'
  obtain ⟨_, hmem⟩ := counts_of_tryIter (hkept.held p hp) hread
  have hhanded := window_handed hinit hfuel halong hrun (hmem entry hentry)
  exact ⟨hhanded, hlengths _ hhanded⟩

end Runs

end State

end Pprof

/-! ### A given signal -/

namespace Pprof.Hopping

scoped instance overHops : Target := Target.linux

scoped instance sipHops : DefaultHasher := DefaultHasher.sip

scoped instance plainHops : Demangle := ⟨id⟩

/-- The entries of the collector. -/
abbrev Item := Entry (UnresolvedFrames IpFrame)

scoped instance itemHops : PlainLayout Item Item := PlainLayout.cell Item

/-- The function on the last page is interrupted, in a thread that has no name. -/
def onLastPage : Signal := ⟨some inLastPage, lastPage, true, 4711, none, 0⟩

/-- A profiler is started, and the timer expires once. -/
def onceSignalled : List RawEvent :=
  List.map RawEvent.other (buildCall .default true ++ [.expire, .deliver, .tryWrite 0]) ++
    [.signal Io.ok onLastPage]

end Pprof.Hopping

namespace Pprof.State

open Hopping

/-- The walk of `hops_guarded_lastPage`, with the frames that it keeps. -/
theorem signals_refine_lastPage :
    ∃ (s : State IpFrame Item) (p : Profiler IpFrame Item) (items : List Item),
      run (rawStep 129) (idle true) onceSignalled = some s ∧
      run step (idle true) (onceSignalled.map RawEvent.event) = some s ∧
      s.profiler = .ok p ∧ p.data.tryIter Io.ok = .ok items ∧
      items.map (fun entry => entry.item.frames) = [[⟨0x401136⟩, ⟨0x4011A0⟩]] ∧
      ∀ entry ∈ items, entry.item.frames.length ≤ 128 := by
  have hsees : (run (rawStep 129) (idle true : State IpFrame Item) onceSignalled).map
      (fun s => s.profiler.toOption.bind fun p => (p.data.tryIter Io.ok).toOption.map fun items =>
        items.map fun entry => entry.item.frames)
        = some (some [[⟨0x401136⟩, ⟨0x4011A0⟩]]) := by decide +kernel
  obtain ⟨s, hrun, hread⟩ := Option.map_eq_some_iff.mp hsees
  -- the calls of build are of the process, the signal has a thread number of four digits
  have hnamed : ∀ e ∈ onceSignalled, e.Named := by
    intro e he
    obtain he | he := List.mem_append.mp he
    · obtain ⟨_, _, rfl⟩ := List.mem_map.mp he
      trivial
    · obtain rfl := List.mem_singleton.mp he
      show (4711 : UInt64).toNat ≤ 10 ^ 15
      decide
  have hfits : Along step Fits (idle true : State IpFrame Item)
      (onceSignalled.map RawEvent.event) := by decide +kernel
  obtain ⟨hprocess, _, hkept⟩ :=
    signals_refine (idle_init true) (show Target.maxDepth < 129 by decide) hnamed hrun
  cases hp : s.profiler with
  | error err =>
    rw [hp] at hread
    cases hread
  | ok p =>
    rw [hp] at hread
    obtain ⟨items, hitems, hframes⟩ := Option.map_eq_some_iff.mp hread
    cases hiter : p.data.tryIter Io.ok with
    | error err =>
      rw [hiter] at hitems
      cases hitems
    | ok items' =>
      rw [hiter] at hitems
      obtain rfl : items' = items := Option.some.inj hitems
      exact ⟨s, p, _, hrun, hprocess, hp, hiter, hframes, fun entry hentry =>
        (hkept hfits p hp Io.ok _ hiter entry hentry).2⟩

end Pprof.State
