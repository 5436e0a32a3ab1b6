/-
The process: guards, the lock of `PROFILER`, the timer and the signal.

A small-step model of everything that touches the profiler.  Any number of
threads call `build`, drop guards, build reports and are interrupted by
`SIGPROF`; one event is one step of one of them, and the steps interleave in
any order.  What runs under the lock of `PROFILER` is split where it calls the
operating system; the handler's `try_write` either takes the lock or gives up.
A signal that is pending when it comes to be ignored stays pending here, where a
kernel may discard it; this only adds runs.

`Step` says what every event can do, branch by branch; `Step.of_step` connects
it to the executable `step`.

Some fields of the state are not in the source and only statements read them:
the number of the session and what each invocation of the handler knew of it
when it was entered, the guard that armed the timer, and the samples the
collector has taken since it was created or last cleared.
-/
import Pprof.Report

open ByteFile

namespace Pprof

/-- A `ProfilerGuard`, the builder it was built by, and whether it is being
dropped. -/
structure Guard where
  id : ℕ
  builder : ProfilerGuardBuilder
  timer : Timer
  dropping : Bool
  deriving DecidableEq

/-- An invocation of the handler: the session it was entered in, and whether a
`stop` has succeeded since. -/
structure Invocation where
  session : ℕ
  late : Bool
  deriving DecidableEq

/-- A sample, and the session in which its invocation was entered. -/
structure Sample (F : Type*) where
  frames : UnresolvedFrames F
  session : ℕ

/-- Who holds the lock of `PROFILER`, and where its critical section stands. -/
inductive Holder where
  | free
  /-- `n + 1` readers. -/
  | readers (n : ℕ)
  /-- `build`, before `start`. -/
  | building (b : ProfilerGuardBuilder)
  /-- `build`, before `Timer::new`. -/
  | started (b : ProfilerGuardBuilder)
  /-- The drop of a guard, before `stop`. -/
  | stopping (g : ℕ)
  /-- The drop of a guard, after `stop`. -/
  | stopped (g : ℕ)
  | handling (v : Invocation)
  | reporting
  /-- Any other critical section that is about to end. -/
  | leaving
  deriving DecidableEq

inductive Event (F : Type*) where
  | readLock
  | readUnlock
  | buildLock (b : ProfilerGuardBuilder)
  | buildStart (sigOk : Bool)
  | buildArm (startTime : SystemTime) (startInstant : Instant)
  | dropDisarm (g : ℕ)
  | dropLock (g : ℕ)
  | dropStop (sigOk tempfile : Bool)
  | expire
  | deliver
  | tryWrite (i : ℕ)
  | handle (io : Io) (interrupt : Interrupt F)
  /-- `build_unresolved`, under the read lock. -/
  | unresolved (rb : ReportBuilder) (io : Io)
  | reportLock
  | report (rb : ReportBuilder) (io : Io) (perfmap : ℕ → ℕ → ℕ → Option Symbol) (clear : Bool)
  | unlock

variable [Target]

structure State (F B : Type*) where
  profiler : Except Error (Profiler F B)
  holder : Holder
  guards : List Guard
  action : SigAction
  itimer : Option Itimerval
  pending : Bool
  killed : Bool
  entered : List Invocation
  nextGuard : ℕ
  timerOwner : ℕ
  session : ℕ
  window : List (Sample F)

namespace State

variable {F B : Type*}

/-- `running` of the profiler, if there is one. -/
def running (s : State F B) : Bool :=
  match s.profiler with
  | .ok p => p.running
  | .error _ => false

theorem running_ok {s : State F B} {p : Profiler F B} (h : s.profiler = .ok p) :
    s.running = p.running := by rw [running, h]

theorem running_congr {s s' : State F B} {p p' : Profiler F B} (hp : s.profiler = .ok p)
    (hp' : s'.profiler = .ok p') (h : p'.running = p.running) : s'.running = s.running := by
  rw [running_ok hp, running_ok hp', h]

theorem running_eq_true {s : State F B} :
    s.running = true ↔ ∃ p, s.profiler = .ok p ∧ p.running = true := by
  rw [running]
  cases s.profiler with
  | ok p => simp
  | error err => simp

/-- A process that has not used the profiler yet. -/
structure Init (s : State F B) : Prop where
  profiler : ∃ tempfile, s.profiler = Profiler.new tempfile
  holder : s.holder = .free
  guards : s.guards = []
  action : s.action.handler ≠ .perfSignalHandler
  itimer : s.itimer = none
  pending : s.pending = false
  killed : s.killed = false
  entered : s.entered = []
  window : s.window = []

/-- Delivery of `SIGPROF` under the current disposition. -/
def deliver (s : State F B) : State F B :=
  match s.action.handler with
  | .perfSignalHandler =>
    { s with pending := false, entered := ⟨s.session, false⟩ :: s.entered }
  | .sigDfl => { s with pending := false, killed := true }
  | _ => { s with pending := false }

/-- Such a process, where `SIGPROF` has its default disposition. -/
def idle (tempfile : Bool) : State F B where
  profiler := Profiler.new tempfile
  holder := .free
  guards := []
  action := ⟨.sigDfl, []⟩
  itimer := none
  pending := false
  killed := false
  entered := []
  nextGuard := 0
  timerOwner := 0
  session := 0
  window := []

theorem idle_init (tempfile : Bool) : Init (idle tempfile : State F B) :=
  ⟨⟨tempfile, rfl⟩, rfl, rfl, by simp [idle], rfl, rfl, rfl, rfl, rfl⟩

@[simp] theorem deliver_profiler (s : State F B) : s.deliver.profiler = s.profiler := by
  rw [deliver]
  cases s.action.handler <;> rfl

@[simp] theorem deliver_holder (s : State F B) : s.deliver.holder = s.holder := by
  rw [deliver]
  cases s.action.handler <;> rfl

@[simp] theorem deliver_guards (s : State F B) : s.deliver.guards = s.guards := by
  rw [deliver]
  cases s.action.handler <;> rfl

@[simp] theorem deliver_window (s : State F B) : s.deliver.window = s.window := by
  rw [deliver]
  cases s.action.handler <;> rfl

/-- The state after `Timer::new` has made a guard, and armed the timer if the
interval is valid. -/
def armedBy (s : State F B) (b : ProfilerGuardBuilder) (timer : Timer)
    (itimer : Option Itimerval) : State F B :=
  { s with
    holder := .leaving
    guards := ⟨s.nextGuard, b, timer, false⟩ :: s.guards
    itimer := itimer
    timerOwner := if (Timer.interval b.frequency).valid then s.nextGuard else s.timerOwner
    nextGuard := s.nextGuard + 1 }

variable [Frame F] [DefaultHasher] [Layout (Entry (UnresolvedFrames F)) B] [Demangle]

/-- One step of the process; `none` where the event cannot happen. -/
def step (s : State F B) : Event F → Option (State F B)
  | .readLock =>
    match s.holder with
    | .free => some { s with holder := .readers 0 }
    | .readers n => some { s with holder := .readers (n + 1) }
    | _ => none
  | .readUnlock =>
    match s.holder with
    | .readers 0 => some { s with holder := .free }
    | .readers (n + 1) => some { s with holder := .readers n }
    | _ => none
  | .buildLock b => if s.holder = .free then some { s with holder := .building b } else none
  | .buildStart sigOk =>
    match s.holder with
    | .building b =>
      match b.start sigOk s.action s.profiler with
      | (.ok (), profiler, action) =>
        some { s with
          profiler := profiler, action := action, holder := .started b, session := s.session + 1 }
      -- the configuration stays in the profiler
      | (.error _, profiler, action) =>
        some { s with profiler := profiler, action := action, holder := .leaving }
    | _ => none
  | .buildArm startTime startInstant =>
    match s.holder with
    | .started b =>
      match Timer.new b.frequency startTime startInstant s.itimer with
      | some (timer, itimer) => some (s.armedBy b timer itimer)
      -- the division panics: the lock is released, no guard is made
      | none => some { s with holder := .leaving }
    | _ => none
  | .dropDisarm g =>
    if s.guards.any (fun x => x.id == g && !x.dropping) then
      some { s with
        -- the timer goes before the lock is asked for, whoever armed it
        itimer := Timer.drop s.itimer
        guards := s.guards.map fun x => if x.id = g then { x with dropping := true } else x }
    else none
  | .dropLock g =>
    if s.holder = .free ∧ s.guards.any (fun x => x.id == g && x.dropping) then
      some { s with holder := .stopping g }
    else none
  | .dropStop sigOk tempfile =>
    match s.holder, s.profiler with
    | .stopping g, .ok p =>
      match p.stop sigOk tempfile s.action with
      | (.ok (), p, action) =>
        some { s with
          profiler := .ok p, action := action, holder := .stopped g
          entered := s.entered.map fun v => { v with late := true }, window := [] }
      | (.error _, p, action) =>
        some { s with profiler := .ok p, action := action, holder := .stopped g }
    | .stopping g, .error _ => some { s with holder := .stopped g }
    | _, _ => none
  | .expire => if s.itimer.isSome then some { s with pending := true } else none
  | .deliver => if s.pending then some s.deliver else none
  | .tryWrite i =>
    match s.entered[i]? with
    | some v =>
      if s.holder = .free then
        some { s with holder := .handling v, entered := s.entered.eraseIdx i }
      -- the lock is busy: the sample is given up
      else some { s with entered := s.entered.eraseIdx i }
    | none => none
  | .handle io interrupt =>
    match s.holder, s.profiler with
    | .handling v, .ok p =>
      some { s with
        profiler := .ok (p.perfSignalHandler io interrupt), holder := .leaving
        window := (p.recorded interrupt).toList.map (fun frames => ⟨frames, v.session⟩) ++
          s.window }
    | .handling _, .error _ => some { s with holder := .leaving }
    | _, _ => none
  | .unresolved rb io =>
    match s.holder with
    | .readers _ => some { s with profiler := (rb.buildUnresolved io s.profiler).2 }
    | _ => none
  | .reportLock =>
    if s.holder = .free ∧ s.guards.any (fun x => !x.dropping) then
      some { s with holder := .reporting }
    else none
  | .report rb io perfmap clear =>
    if s.holder = .reporting then
      -- a report that is returned by a clearing call empties the window
      let out := rb.buildAndClear io perfmap clear s.profiler
      some { s with
        profiler := out.2, holder := .leaving
        window := if clear && out.1.isOk then [] else s.window }
    else none
  | .unlock =>
    match s.holder with
    | .stopped g => some { s with holder := .free, guards := s.guards.filter fun x => x.id != g }
    | .leaving => some { s with holder := .free }
    | _ => none

/-! ### Everything a step can do -/

omit [Target] [Frame F] [DefaultHasher] [Layout (Entry (UnresolvedFrames F)) B] [Demangle] in
/-- A holder that is not inside a start, a stop or a sample. -/
def Holder.quiet : Holder → Bool
  | .free | .readers _ | .building _ | .reporting | .leaving => true
  | _ => false

omit [Target] [Frame F] [DefaultHasher] [Layout (Entry (UnresolvedFrames F)) B] [Demangle] in
/-- The events that may only move the lock. -/
def Event.moves : Event F → Bool
  | .readLock | .readUnlock | .buildLock _ | .buildStart _ | .buildArm _ _ | .unresolved _ _
  | .reportLock | .unlock => true
  | _ => false

/-- What the steps do to the state, branch by branch. -/
inductive Step (s : State F B) : Event F → State F B → Prop
  /-- The lock changes hands, and nothing else happens. -/
  | moved {e : Event F} (h : Holder) (he : Event.moves e) (hquiet : Holder.quiet h)
      (hold : ∀ g, s.holder ≠ .stopping g ∧ s.holder ≠ .stopped g) :
      Step s e { s with holder := h }
  /-- `start` refuses or fails; the configuration is stored. -/
  | refused {b p} {sigOk : Bool} (hholder : s.holder = .building b) (hp : s.profiler = .ok p)
      (hcause : p.running = true ∨ sigOk = false) :
      Step s (.buildStart sigOk)
        { s with profiler := .ok (b.configure p), holder := .leaving }
  /-- `start` starts a session. -/
  | started {b p} (hholder : s.holder = .building b) (hp : s.profiler = .ok p)
      (hrun : p.running = false) :
      Step s (.buildStart true)
        { s with
          profiler := .ok { b.configure p with oldSigaction := some s.action, running := true }
          action := .handle b.onStack, holder := .started b, session := s.session + 1 }
  | armed {b timer itimer startTime startInstant} (hholder : s.holder = .started b)
      (hnew : Timer.new b.frequency startTime startInstant s.itimer = some (timer, itimer)) :
      Step s (.buildArm startTime startInstant) (s.armedBy b timer itimer)
  | disarmed {g x} (hx : x ∈ s.guards) (hid : x.id = g) (hdropping : x.dropping = false) :
      Step s (.dropDisarm g)
        { s with
          itimer := none
          guards := s.guards.map fun x => if x.id = g then { x with dropping := true } else x }
  | dropLocked {g x} (hholder : s.holder = .free) (hx : x ∈ s.guards) (hid : x.id = g)
      (hdropping : x.dropping = true) : Step s (.dropLock g) { s with holder := .stopping g }
  /-- `stop` finds the profiler not running, or there is none. -/
  | stopRefused {g} {sigOk tempfile : Bool} (hholder : s.holder = .stopping g)
      (hrun : s.running = false) :
      Step s (.dropStop sigOk tempfile) { s with holder := .stopped g }
  /-- `stop` returns early: the profiler stays running. -/
  | stopFailed {g p counter action} {sigOk tempfile : Bool} (hholder : s.holder = .stopping g)
      (hp : s.profiler = .ok p) (hrun : p.running = true)
      (hcause : sigOk = false ∧ counter = p.sampleCounter ∧ action = s.action ∨
        sigOk = true ∧ tempfile = false ∧ counter = 0 ∧ action = .ignore) :
      Step s (.dropStop sigOk tempfile)
        { s with
          profiler := .ok { p with oldSigaction := none, sampleCounter := counter }
          action := action, holder := .stopped g }
  | stopped {g p data} (hholder : s.holder = .stopping g) (hp : s.profiler = .ok p)
      (hrun : p.running = true) (hdata : Collector.new true = .ok data) :
      Step s (.dropStop true true)
        { s with
          profiler := .ok { p with
            data := data, oldSigaction := none, sampleCounter := 0, running := false }
          action := .ignore, holder := .stopped g
          entered := s.entered.map fun v => { v with late := true }, window := [] }
  | expired (harmed : s.itimer.isSome) : Step s .expire { s with pending := true }
  | delivered (hpending : s.pending) : Step s .deliver s.deliver
  | entersLock {i v} (hv : s.entered[i]? = some v) (hholder : s.holder = .free) :
      Step s (.tryWrite i) { s with holder := .handling v, entered := s.entered.eraseIdx i }
  | givesUp {i v} (hv : s.entered[i]? = some v) (hholder : s.holder ≠ .free) :
      Step s (.tryWrite i) { s with entered := s.entered.eraseIdx i }
  | handled {v p io interrupt} (hholder : s.holder = .handling v) (hp : s.profiler = .ok p) :
      Step s (.handle io interrupt)
        { s with
          profiler := .ok (p.perfSignalHandler io interrupt), holder := .leaving
          window := (p.recorded interrupt).toList.map (fun frames => ⟨frames, v.session⟩) ++
            s.window }
  /-- There is no profiler to sample into. -/
  | handledNone {v err io interrupt} (hholder : s.holder = .handling v)
      (hp : s.profiler = .error err) :
      Step s (.handle io interrupt) { s with holder := .leaving }
  | reported {rb io perfmap clear} (hholder : s.holder = .reporting) :
      Step s (.report rb io perfmap clear)
        { s with
          profiler := (rb.buildAndClear io perfmap clear s.profiler).2, holder := .leaving
          window := if clear && (rb.buildAndClear io perfmap clear s.profiler).1.isOk then []
            else s.window }
  | released {g} (hholder : s.holder = .stopped g) :
      Step s .unlock
        { s with holder := .free, guards := s.guards.filter fun x => x.id != g }

theorem Step.of_step {s s' : State F B} {e : Event F} (h : s.step e = some s') : Step s e s' := by
  cases e with
  | readLock =>
    -- readers only move the lock
    simp only [step] at h
    split at h
    · next hh =>
      obtain rfl := Option.some.inj h
      exact .moved _ rfl rfl (by simp [hh])
    · next hh =>
      obtain rfl := Option.some.inj h
      exact .moved _ rfl rfl (by simp [hh])
    · cases h
  | readUnlock =>
    simp only [step] at h
    split at h
    · next hh =>
      obtain rfl := Option.some.inj h
      exact .moved _ rfl rfl (by simp [hh])
    · next hh =>
      obtain rfl := Option.some.inj h
      exact .moved _ rfl rfl (by simp [hh])
    · cases h
  | buildLock b =>
    obtain ⟨hh, h⟩ := Option.ite_none_right_eq_some.mp h
    obtain rfl := Option.some.inj h
    exact .moved _ rfl rfl (by simp [hh])
  | buildStart sigOk =>
    simp only [step] at h
    split at h
    · next b hh =>
      -- without a profiler `start` fails; else it is refused, it fails, or it starts
      cases hp : s.profiler with
      | error err =>
        rw [hp] at h
        have hs : s' = { s with holder := .leaving } := by
          rw [← Option.some.inj h, ← hp]
        rw [hs]
        exact .moved _ rfl rfl (by simp [hh])
      | ok p =>
        rw [hp] at h
        obtain ⟨hrun, hstart⟩ | ⟨hrun, hsig, hstart⟩ | ⟨hrun, hsig, hstart⟩ :=
          b.start_cases sigOk s.action p
        · rw [hstart] at h
          obtain rfl := Option.some.inj h
          exact .refused hh hp (.inl hrun)
        · rw [hstart] at h
          obtain rfl := Option.some.inj h
          exact .refused hh hp (.inr hsig)
        · rw [hstart] at h
          obtain rfl := Option.some.inj h
          subst hsig
          exact .started hh hp hrun
    · cases h
  | buildArm startTime startInstant =>
    simp only [step] at h
    split at h
    · next b hh =>
      -- the timer is made, or the division panics and only the lock moves
      split at h
      · next timer itimer hnew =>
        obtain rfl := Option.some.inj h
        exact .armed hh hnew
      · obtain rfl := Option.some.inj h
        exact .moved _ rfl rfl (by simp [hh])
    · cases h
  | dropDisarm g =>
    -- the guard is one that is not being dropped yet
    obtain ⟨hany, h⟩ := Option.ite_none_right_eq_some.mp h
    obtain ⟨x, hx, hcond⟩ := List.any_eq_true.mp hany
    obtain rfl := Option.some.inj h
    rw [Timer.drop_eq_none]
    simp only [Bool.and_eq_true, beq_iff_eq, Bool.not_eq_true'] at hcond
    exact .disarmed hx hcond.1 hcond.2
  | dropLock g =>
    obtain ⟨⟨hh, hany⟩, h⟩ := Option.ite_none_right_eq_some.mp h
    obtain ⟨x, hx, hcond⟩ := List.any_eq_true.mp hany
    obtain rfl := Option.some.inj h
    simp only [Bool.and_eq_true, beq_iff_eq] at hcond
    exact .dropLocked hh hx hcond.1 hcond.2
  | dropStop sigOk tempfile =>
    simp only [step] at h
    split at h
    · next g p hh hp =>
      -- the four ends of `stop`: refused, two early returns, and success
      obtain ⟨hrun, hstop⟩ | ⟨hrun, hsig, hstop⟩ | ⟨hrun, hsig, htemp, err, hstop⟩ |
          ⟨hrun, hsig, htemp, data, hdata, hstop⟩ := p.stop_cases sigOk tempfile s.action
      · rw [hstop] at h
        have hs : s' = { s with holder := .stopped g } := by
          rw [← Option.some.inj h, ← hp]
        rw [hs]
        exact .stopRefused hh (by rw [running, hp]; exact hrun)
      · rw [hstop] at h
        obtain rfl := Option.some.inj h
        exact .stopFailed hh hp hrun (.inl ⟨hsig, rfl, rfl⟩)
      · rw [hstop] at h
        obtain rfl := Option.some.inj h
        exact .stopFailed hh hp hrun (.inr ⟨hsig, htemp, rfl, rfl⟩)
      · rw [hstop] at h
        obtain rfl := Option.some.inj h
        subst hsig htemp
        exact .stopped hh hp hrun hdata
    · next g err hh hp =>
      obtain rfl := Option.some.inj h
      exact .stopRefused hh (by rw [running, hp])
    · cases h
  | expire =>
    obtain ⟨harmed, h⟩ := Option.ite_none_right_eq_some.mp h
    obtain rfl := Option.some.inj h
    exact .expired harmed
  | deliver =>
    obtain ⟨hpending, h⟩ := Option.ite_none_right_eq_some.mp h
    obtain rfl := Option.some.inj h
    exact .delivered hpending
  | tryWrite i =>
    simp only [step] at h
    split at h
    · next v hv =>
      -- `try_write` does not wait
      by_cases hh : s.holder = .free
      · rw [if_pos hh] at h
        obtain rfl := Option.some.inj h
        exact .entersLock hv hh
      · rw [if_neg hh] at h
        obtain rfl := Option.some.inj h
        exact .givesUp hv hh
    · cases h
  | handle io interrupt =>
    simp only [step] at h
    split at h
    · next v p hh hp =>
      obtain rfl := Option.some.inj h
      exact .handled hh hp
    · next v err hh hp =>
      obtain rfl := Option.some.inj h
      exact .handledNone hh hp
    · cases h
  | unresolved rb io =>
    simp only [step] at h
    split at h
    · next n hh =>
      have hs : s' = { s with holder := .readers n } := by
        rw [← Option.some.inj h, rb.buildUnresolved_keeps, ← hh]
      rw [hs]
      exact .moved _ rfl rfl (by simp [hh])
    · cases h
  | reportLock =>
    obtain ⟨⟨hh, _⟩, h⟩ := Option.ite_none_right_eq_some.mp h
    obtain rfl := Option.some.inj h
    exact .moved _ rfl rfl (by simp [hh])
  | report rb io perfmap clear =>
    obtain ⟨hh, h⟩ := Option.ite_none_right_eq_some.mp h
    obtain rfl := Option.some.inj h
    exact .reported hh
  | unlock =>
    -- with the lock of a drop its guard goes
    simp only [step] at h
    split at h
    · next g hh =>
      obtain rfl := Option.some.inj h
      exact .released hh
    · next hh =>
      obtain rfl := Option.some.inj h
      exact .moved _ rfl rfl (by simp [hh])
    · cases h

end State

/-! ### Calls without interference -/

/-- A call of `build`. -/
def buildCall {F : Type*} (b : ProfilerGuardBuilder) (sigOk : Bool) : List (Event F) :=
  [.readLock, .readUnlock, .buildLock b, .buildStart sigOk] ++
    (if sigOk then [.buildArm 0 0] else []) ++ [.unlock]

/-- The drop of the guard `g`. -/
def dropCall {F : Type*} (g : ℕ) (sigOk tempfile : Bool) : List (Event F) :=
  [.dropDisarm g, .dropLock g, .dropStop sigOk tempfile, .unlock]

end Pprof
