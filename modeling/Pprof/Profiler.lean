/-
The profiler: configuration, signal handler and collected samples.

`Profiler` follows `profiler.rs`.  Its methods run under the write lock of
`PROFILER`, so each is a function of the profiler and of the disposition of
`SIGPROF`; a call of the operating system that may fail is a flag of the
function.  `ProfilerGuardBuilder.start` is the part of `build` that runs before
the timer is armed, `perfSignalHandler` the body of the handler once it holds
the lock.

* `start_cases`, `stop_cases`, `clear_cases` — everything the three can do,
  guards and failing calls included;
* `ProfilerGuardBuilder.start_cases` — the same for `build`.
-/
import Pprof.Collector
import Pprof.Frames

open ByteFile Wrapping

namespace Pprof

/-- `Error`; the texts of the causes are left out. -/
inductive Error where
  | nixError
  | ioError (err : IoError)
  | creatingError
  | running
  | notRunning
  deriving DecidableEq

/-! ### The disposition of `SIGPROF` -/

inductive SigHandler where
  | sigDfl
  | sigIgn
  | perfSignalHandler
  | other (address : ℕ)
  deriving DecidableEq

inductive SaFlag where
  | siginfo
  | restart
  | onstack
  deriving DecidableEq

/-- A `SigAction` with an empty mask. -/
structure SigAction where
  handler : SigHandler
  flags : List SaFlag
  deriving DecidableEq

/-- `sigaction(SIGPROF, ..)`: the old action or an error, and the disposition
after the call. -/
def sigaction (ok : Bool) (new current : SigAction) : Except Error SigAction × SigAction :=
  if ok then (.ok current, new) else (.error .nixError, current)

/-- The action that ignores the signal. -/
def SigAction.ignore : SigAction := ⟨.sigIgn, []⟩

/-- The action that calls the handler. -/
def SigAction.handle (onStack : Bool) : SigAction :=
  ⟨.perfSignalHandler, [.siginfo, .restart] ++ if onStack then [.onstack] else []⟩

/-! ### The profiler -/

variable [Target]

/-- `Profiler`; a profiler built without the feature `frame-pointer` does not
look at `onStack`, which then stays `false`. -/
structure Profiler (F B : Type*) where
  data : Collector (UnresolvedFrames F) B
  sampleCounter : ℤ
  oldSigaction : Option SigAction
  running : Bool
  onStack : Bool
  blocklistSegments : List (ℕ × ℕ)

/-- What an invocation of the handler finds: the interrupted program counter,
if the context is not null, the frames the unwinder shows, the thread and the
time. -/
structure Interrupt (F : Type*) where
  addr : Option ℕ
  frames : List F
  threadName : ThreadName
  threadId : UInt64
  now : SystemTime

namespace Profiler

variable {F B : Type*}

/-- `Profiler::new`. -/
def new (tempfile : Bool) : Except Error (Profiler F B) :=
  match Collector.new tempfile with
  | .ok data => .ok ⟨data, 0, none, false, false, []⟩
  | .error err => .error (.ioError err)

/-- `Profiler::is_blocklisted`. -/
def isBlocklisted (p : Profiler F B) (addr : ℕ) : Bool :=
  p.blocklistSegments.any fun libs => libs.1 < addr && addr < libs.2

/-- `Profiler::register_signal_handler`. -/
def registerSignalHandler (ok : Bool) (action : SigAction) (p : Profiler F B) :
    Except Error Unit × Profiler F B × SigAction :=
  match sigaction ok (.handle p.onStack) action with
  | (.ok oldAction, action) => (.ok (), { p with oldSigaction := some oldAction }, action)
  | (.error err, action) => (.error err, p, action)

/-- `Profiler::unregister_signal_handler`. -/
def unregisterSignalHandler (ok : Bool) (action : SigAction) (p : Profiler F B) :
    Except Error Unit × Profiler F B × SigAction :=
  -- the old action is forgotten, not restored
  let p := { p with oldSigaction := none }
  match sigaction ok .ignore action with
  | (.ok _, action) => (.ok (), p, action)
  | (.error err, action) => (.error err, p, action)

/-- `Profiler::start`. -/
def start (sigOk : Bool) (action : SigAction) (p : Profiler F B) :
    Except Error Unit × Profiler F B × SigAction :=
  if p.running then (.error .running, p, action)
  else
    match p.registerSignalHandler sigOk action with
    | (.ok (), p, action) => (.ok (), { p with running := true }, action)
    | (.error err, p, action) => (.error err, p, action)

/-- `Profiler::init`. -/
def init (tempfile : Bool) (p : Profiler F B) : Except Error Unit × Profiler F B :=
  -- `running` is reset last: it stays set if there is no new collector
  let p := { p with sampleCounter := 0 }
  match Collector.new tempfile with
  | .ok data => (.ok (), { p with data := data, running := false })
  | .error err => (.error (.ioError err), p)

/-- `Profiler::stop`. -/
def stop (sigOk tempfile : Bool) (action : SigAction) (p : Profiler F B) :
    Except Error Unit × Profiler F B × SigAction :=
  if p.running then
    match p.unregisterSignalHandler sigOk action with
    | (.ok (), p, action) => ((p.init tempfile).1, (p.init tempfile).2, action)
    | (.error err, p, action) => (.error err, p, action)
  else (.error .notRunning, p, action)

theorem new_eq_ok {tempfile : Bool} {p : Profiler F B} (h : new tempfile = .ok p) :
    ∃ data, Collector.new tempfile = .ok data ∧ p = ⟨data, 0, none, false, false, []⟩ := by
  rw [new] at h
  cases hdata : (Collector.new tempfile : Except _ (Collector (UnresolvedFrames F) B)) with
  | error err =>
    rw [hdata] at h
    cases h
  | ok data =>
    rw [hdata] at h
    exact ⟨data, rfl, (Except.ok.inj h).symm⟩

/-- Everything `start` can do: refuse, fail in `sigaction`, or start. -/
theorem start_cases (sigOk : Bool) (action : SigAction) (p : Profiler F B) :
    (p.running = true ∧ p.start sigOk action = (.error .running, p, action)) ∨
    (p.running = false ∧ sigOk = false ∧ p.start sigOk action = (.error .nixError, p, action)) ∨
    (p.running = false ∧ sigOk = true ∧ p.start sigOk action =
      (.ok (), { p with oldSigaction := some action, running := true }, .handle p.onStack)) := by
  cases hrun : p.running with
  | true => exact .inl ⟨rfl, by rw [start, if_pos hrun]⟩
  | false =>
    cases sigOk with
    | false => exact .inr (.inl ⟨rfl, rfl, by simp [start, hrun, registerSignalHandler, sigaction]⟩)
    | true => exact .inr (.inr ⟨rfl, rfl, by simp [start, hrun, registerSignalHandler, sigaction]⟩)

/-- Everything `stop` can do: refuse, fail in `sigaction`, fail to create the
new collector, or stop. -/
theorem stop_cases (sigOk tempfile : Bool) (action : SigAction) (p : Profiler F B) :
    (p.running = false ∧ p.stop sigOk tempfile action = (.error .notRunning, p, action)) ∨
    (p.running = true ∧ sigOk = false ∧ p.stop sigOk tempfile action =
      (.error .nixError, { p with oldSigaction := none }, action)) ∨
    (p.running = true ∧ sigOk = true ∧ tempfile = false ∧ ∃ err, p.stop sigOk tempfile action =
      (.error (.ioError err), { p with oldSigaction := none, sampleCounter := 0 }, .ignore)) ∨
    (p.running = true ∧ sigOk = true ∧ tempfile = true ∧ ∃ data, Collector.new true = .ok data ∧
      p.stop sigOk tempfile action = (.ok (),
        { p with data := data, oldSigaction := none, sampleCounter := 0, running := false },
        .ignore)) := by
  cases hrun : p.running with
  | false => exact .inl ⟨rfl, by simp [stop, hrun]⟩
  | true =>
    -- the calls of stop in their order: sigaction first, then the new collector
    cases sigOk with
    | false =>
      exact .inr (.inl ⟨rfl, rfl, by simp [stop, hrun, unregisterSignalHandler, sigaction]⟩)
    | true =>
      cases tempfile with
      | false =>
        refine .inr (.inr (.inl ⟨rfl, rfl, rfl, .os, ?_⟩))
        simp [stop, hrun, unregisterSignalHandler, sigaction, init, Collector.new, TempFdArray.new]
      | true =>
        refine .inr (.inr (.inr ⟨rfl, rfl, rfl, _, rfl, ?_⟩))
        simp [stop, hrun, unregisterSignalHandler, sigaction, init, Collector.new, TempFdArray.new]

section Samples

variable [Frame F] [DefaultHasher] [Layout (Entry (UnresolvedFrames F)) B]

omit [Frame F] [DefaultHasher] in
/-- `Profiler::clear`. -/
def clear (io : Io) (p : Profiler F B) : Except Error Unit × Profiler F B :=
  if p.running then
    let p := { p with sampleCounter := 0 }
    let cleared := p.data.clear io
    match cleared.1 with
    | .ok () => (.ok (), { p with data := cleared.2 })
    | .error err => (.error (.ioError err), { p with data := cleared.2 })
  else (.error .notRunning, p)

omit [Frame F] [DefaultHasher] in
/-- Everything `clear` can do: refuse, clear, or fail in a file operation after
it has cleared what is in memory. -/
theorem clear_cases (io : Io) (p : Profiler F B) :
    (p.running = false ∧ p.clear io = (.error .notRunning, p)) ∨
    (p.running = true ∧ io.clearsOk = true ∧ p.clear io
      = (.ok (), { p with sampleCounter := 0, data := (p.data.clear io).2 })) ∨
    (p.running = true ∧ io.clearsOk = false ∧ p.clear io
      = (.error (.ioError .os), { p with sampleCounter := 0, data := (p.data.clear io).2 })) := by
  cases hrun : p.running with
  | false => exact .inl ⟨rfl, by simp [clear, hrun]⟩
  | true =>
    rw [clear, if_pos hrun]
    cases hio : io.clearsOk with
    | true =>
      have hok : (p.data.clear io).1 = .ok () := (p.data.tempArray.clear_stores hio).1
      exact .inr (.inl ⟨rfl, rfl, by simp only [hok, hrun]⟩)
    | false =>
      have herr : (p.data.clear io).1 = .error .os := p.data.tempArray.clear_fails hio
      exact .inr (.inr ⟨rfl, rfl, by simp only [herr, hrun]⟩)

/-- `Profiler::sample`; an entry that cannot be written is dropped. -/
def sample (io : Io) (frames : UnresolvedFrames F) (p : Profiler F B) : Profiler F B :=
  { p with
    sampleCounter := wrap 32 (p.sampleCounter + 1)
    data := (p.data.add io frames 1).2 }

@[simp] theorem sample_data (io : Io) (frames : UnresolvedFrames F) (p : Profiler F B) :
    (p.sample io frames).data = (p.data.add io frames 1).2 := rfl

omit [DefaultHasher] [Layout (Entry (UnresolvedFrames F)) B] in
/-- The frames the handler keeps: the unwinder stops at a blocked frame, if the
feature `frame-pointer` is on, and at `MAX_DEPTH`. -/
def backtrace (p : Profiler F B) (frames : List F) : List F :=
  (frames.takeWhile fun frame =>
    !(Target.framePointer && p.isBlocklisted (Frame.ip frame))).take Target.maxDepth

omit [DefaultHasher] [Layout (Entry (UnresolvedFrames F)) B] in
/-- The stack an invocation records, `none` when it was interrupted in a
blocked library. -/
def recorded (i : Interrupt F) (p : Profiler F B) : Option (UnresolvedFrames F) :=
  if i.addr.any p.isBlocklisted then none
  else some (.new (p.backtrace i.frames) i.threadName i.threadId i.now)

/-- `perf_signal_handler`, once it holds the lock. -/
def perfSignalHandler (io : Io) (i : Interrupt F) (p : Profiler F B) : Profiler F B :=
  match p.recorded i with
  | some frames => p.sample io frames
  | none => p

end Samples

end Profiler

/-! ### Building a guard -/

structure ProfilerGuardBuilder where
  frequency : ℤ
  onStack : Bool
  blocklistSegments : List (ℕ × ℕ)
  deriving DecidableEq

namespace ProfilerGuardBuilder

variable {F B : Type*}

/-- `ProfilerGuardBuilder::default`. -/
def default : ProfilerGuardBuilder := ⟨99, false, []⟩

/-- `build` stores the configuration in the profiler. -/
def configure (b : ProfilerGuardBuilder) (p : Profiler F B) : Profiler F B :=
  { p with onStack := b.onStack, blocklistSegments := b.blocklistSegments }

/-- `ProfilerGuardBuilder::build` until `Profiler::start` has answered. -/
def start (sigOk : Bool) (action : SigAction) (b : ProfilerGuardBuilder)
    (profiler : Except Error (Profiler F B)) :
    Except Error Unit × Except Error (Profiler F B) × SigAction :=
  match profiler with
  | .error err => (.error .creatingError, .error err, action)
  | .ok p =>
    let started := (b.configure p).start sigOk action
    (started.1, .ok started.2.1, started.2.2)

/-- Everything `build` can do to a profiler before it arms the timer. -/
theorem start_cases (sigOk : Bool) (action : SigAction) (b : ProfilerGuardBuilder)
    (p : Profiler F B) :
    (p.running = true ∧
      b.start sigOk action (.ok p) = (.error .running, .ok (b.configure p), action)) ∨
    (p.running = false ∧ sigOk = false ∧
      b.start sigOk action (.ok p) = (.error .nixError, .ok (b.configure p), action)) ∨
    (p.running = false ∧ sigOk = true ∧
      b.start sigOk action (.ok p) = (.ok (),
        .ok { b.configure p with oldSigaction := some action, running := true },
        .handle b.onStack)) := by
  obtain ⟨hrun, h⟩ | ⟨hrun, hsig, h⟩ | ⟨hrun, hsig, h⟩ := (b.configure p).start_cases sigOk action
  · exact .inl ⟨hrun, by rw [start, h]⟩
  · exact .inr (.inl ⟨hrun, hsig, by rw [start, h]⟩)
  · exact .inr (.inr ⟨hrun, hsig, by rw [start, h]; rfl⟩)

end ProfilerGuardBuilder

end Pprof
