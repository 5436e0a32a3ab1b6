/-
The profiler of `criterion`.

`PProfProfiler` follows `criterion.rs`.  For each benchmark the harness calls
`start_profiling`, runs the benchmark and calls `stop_profiling`, which writes
one file; what goes wrong is a panic, and ends the run.  The handler runs
between the calls, in `stop_profiling` until the guard is dropped, and late,
where it was entered before.

The number of the session, the samples the collector has taken since it was
created and the list of what was written are not in the source.

* `Bench.files_count` — each file counts the samples of its benchmark, also if
  writes of the overflow file fail;
* `Bench.Stuck` — the profiler runs, and nobody has its guard;
* `Bench.restarts` — a second `start_profiling` panics and disturbs nothing, and
  `stop_profiling`, even where it panics, leaves a profiler that can be started,
  or, where `stop` fails, one that is stuck from then on.
-/
import Pprof.Flamegraph
import Pprof.Session
import Pprof.Uploads

open ByteFile Transition Weight

namespace Pprof.Criterion

/-- `Output`, without the options of the generator. -/
inductive Output where
  | flamegraph
  | protobuf
  | phantom
  deriving DecidableEq

def Output.filename : Output → String
  | .flamegraph => "flamegraph.svg"
  | .protobuf => "profile.pb"
  | .phantom => ""

/-- `PProfProfiler`; of the guard, its timer. -/
structure PProfProfiler where
  frequency : ℤ
  output : Output
  activeProfiler : Option Timer

/-- `PProfProfiler::new`. -/
def PProfProfiler.new (frequency : ℤ) (output : Output) : PProfProfiler := ⟨frequency, output, none⟩

/-- The builder of `ProfilerGuard::new`. -/
def PProfProfiler.builder (adapter : PProfProfiler) : ProfilerGuardBuilder :=
  { ProfilerGuardBuilder.default with frequency := adapter.frequency }

/-- Where a call panics. -/
inductive Panic where
  /-- `ProfilerGuard::new` returns an error. -/
  | guard (err : Error)
  /-- The division in `Timer::new`. -/
  | divideByZero
  | createDir
  | createFile
  | report (err : Error)
  /-- `flamegraph::from_lines` returns an error. -/
  | fromLines
  /-- The division in `pprof`. -/
  | pprof
  | write
  | unreachable

/-- What is in a file. -/
inductive Content where
  | empty
  /-- The encoding of the profile. -/
  | profile (p : Protos.Profile)
  /-- What `flamegraph::from_lines` makes of the lines. -/
  | svg (lines : List String)
  /-- What a call that panics leaves. -/
  | part

variable [Demangle]

/-- The orders in which the map of a report and the set of its strings are
iterated. -/
structure MapOrder where
  report : Report → Report
  perm : ∀ r, (report r).data.Perm r.data
  timing : ∀ r, (report r).timing = r.timing
  strings : ∀ r, Report.StringOrder r

/-- The order in which they are listed. -/
def MapOrder.last : MapOrder := ⟨id, fun _ => .refl _, fun _ => rfl, Report.StringOrder.last⟩

/-- The answers that the drop of a guard gets, and the samples that are taken
before `stop` holds the lock. -/
structure Dropping (F : Type*) where
  sigOk : Bool
  tempfile : Bool
  late : List (Io × Interrupt F)

/-- The answers that `start_profiling` gets. -/
structure Starting (F : Type*) where
  sigOk : Bool
  startTime : SystemTime
  startInstant : Instant
  dropping : Dropping F

/-- The answers that `stop_profiling` gets. -/
structure Stopping (F : Type*) where
  createDir : Bool
  createFile : Bool
  now : Instant
  io : Io
  perfmap : ℕ → ℕ → ℕ → Option Symbol
  order : MapOrder
  /-- The content reaches the file. -/
  written : Bool
  dropping : Dropping F

variable {F B : Type*} [Frame F] [Target]

/-- What is written for a report. -/
def Output.render (a : Stopping F) (report : Except Error Report) :
    Output → Except Panic Content
  | .flamegraph =>
    match report with
    | .error err => .error (.report err)
    | .ok r =>
      if (a.order.report r).lines.isEmpty then .ok .empty
      else if a.written then .ok (.svg (a.order.report r).lines)
      else .error .fromLines
  | .protobuf =>
    match report with
    | .error err => .error (.report err)
    | .ok r =>
      match (a.order.report r).pprof (a.order.strings _) with
      | none => .error .pprof
      | some p => if a.written then .ok (.profile p) else .error .write
  | .phantom => .error .unreachable

/-- The process of the benchmarks. -/
structure Bench (F B : Type*) where
  profiler : Except Error (Profiler F B)
  action : SigAction
  itimer : Option Itimerval
  adapter : PProfProfiler
  session : ℕ
  window : List (Sample F)
  files : List ((String × String) × Content)

namespace Bench

def running (w : Bench F B) : Bool :=
  match w.profiler with
  | .ok p => p.running
  | .error _ => false

variable [PlainLayout (Entry (UnresolvedFrames F)) B] [DefaultHasher]

/-- The handler, where it gets the lock. -/
def handle (w : Bench F B) (io : Io) (i : Interrupt F) : Bench F B :=
  match w.profiler with
  | .ok p =>
    { w with
      profiler := .ok (p.perfSignalHandler io i)
      window := (p.recorded i).toList.map (fun frames => ⟨frames, w.session⟩) ++ w.window }
  | .error _ => w

def handleAll (w : Bench F B) (samples : List (Io × Interrupt F)) : Bench F B :=
  samples.foldl (fun w sample => w.handle sample.1 sample.2) w

/-- The drop of a `ProfilerGuard`; the errors of `stop` are logged. -/
def dropGuard (w : Bench F B) (a : Dropping F) : Bench F B :=
  let w := { w with itimer := Timer.drop w.itimer }.handleAll a.late
  match w.profiler with
  | .ok p =>
    let stopped := p.stop a.sigOk a.tempfile w.action
    { w with
      profiler := .ok stopped.2.1
      action := stopped.2.2
      window := if stopped.1.isOk then [] else w.window }
  | .error _ => w

/-- `start_profiling`. -/
def startProfiling (w : Bench F B) (a : Starting F) : Except Panic Unit × Bench F B :=
  let b := w.adapter.builder
  match b.start a.sigOk w.action w.profiler with
  | (.error err, profiler, action) =>
    (.error (.guard err), { w with profiler := profiler, action := action })
  | (.ok (), profiler, action) =>
    let w := { w with profiler := profiler, action := action, session := w.session + 1 }
    match Timer.new b.frequency a.startTime a.startInstant w.itimer with
    | none => (.error .divideByZero, w)
    | some (timer, itimer) =>
      let w := { w with itimer := itimer }
      -- the assignment drops the guard that was there
      let w := if w.adapter.activeProfiler.isSome then w.dropGuard a.dropping else w
      (.ok (), { w with adapter := { w.adapter with activeProfiler := some timer } })

/-- `stop_profiling`. -/
def stopProfiling (w : Bench F B) (benchmarkDir : String) (a : Stopping F) :
    Except Panic Unit × Bench F B :=
  if !a.createDir then (.error .createDir, w)
  else if !a.createFile then (.error .createFile, w)
  else
    let path := (benchmarkDir, w.adapter.output.filename)
    match w.adapter.activeProfiler with
    | none => (.ok (), { w with files := w.files ++ [(path, .empty)] })
    | some timer =>
      let w := { w with adapter := { w.adapter with activeProfiler := none } }
      let rb : ReportBuilder := ⟨none, timer.timing a.now⟩
      match w.adapter.output.render a (rb.build a.io a.perfmap w.profiler).1 with
      | .ok content =>
        (.ok (), { w with files := w.files ++ [(path, content)] }.dropGuard a.dropping)
      -- the guard is dropped when the panic unwinds the stack
      | .error panic =>
        (.error panic, { w with files := w.files ++ [(path, Content.part)] }.dropGuard a.dropping)

end Bench

inductive Event (F : Type*) where
  | startProfiling (a : Starting F)
  | stopProfiling (benchmarkDir : String) (a : Stopping F)
  /-- The signal is handled. -/
  | interrupt (io : Io) (i : Interrupt F)
  /-- A handler that was entered before gets the lock. -/
  | late (io : Io) (i : Interrupt F)

def Event.onTime : Event F → Bool
  | .late _ _ => false
  | _ => true

/-- A call of `stop_profiling`: its file, and the session that it ends. -/
structure Benchmark (F : Type*) where
  path : String × String
  session : ℕ
  samples : List (Sample F)

namespace Bench

variable [PlainLayout (Entry (UnresolvedFrames F)) B] [DefaultHasher]

/-- One step; a call that panics has none. -/
def step (w : Bench F B) : Event F → Option (Bench F B)
  | .startProfiling a =>
    match w.startProfiling a with
    | (.ok (), w) => some w
    | (.error _, _) => none
  | .stopProfiling benchmarkDir a =>
    match w.stopProfiling benchmarkDir a with
    | (.ok (), w) => some w
    | (.error _, _) => none
  | .interrupt io i => if w.action.handler = .perfSignalHandler then some (w.handle io i) else none
  | .late io i => some (w.handle io i)

/-- One step where the harness goes on after a panic. -/
def caught (w : Bench F B) : Event F → Option (Bench F B)
  | .startProfiling a => some (w.startProfiling a).2
  | .stopProfiling benchmarkDir a => some (w.stopProfiling benchmarkDir a).2
  | .interrupt io i => if w.action.handler = .perfSignalHandler then some (w.handle io i) else none
  | .late io i => some (w.handle io i)

/-- The benchmarks, with the samples of their sessions. -/
def profiled (w : Bench F B) : Event F → List (Benchmark F)
  | .stopProfiling benchmarkDir _ =>
    [⟨(benchmarkDir, w.adapter.output.filename), w.session,
      if w.adapter.activeProfiler.isSome then w.window else []⟩]
  | _ => []

/-- Before the first benchmark. -/
structure Init (w : Bench F B) : Prop where
  profiler : ∃ tempfile, w.profiler = Profiler.new tempfile
  action : w.action.handler ≠ .perfSignalHandler
  adapter : w.adapter.activeProfiler = none
  window : w.window = []
  files : w.files = []

/-- The samples can be counted. -/
def Fits (w : Bench F B) : Event F → Prop
  | .interrupt _ _ | .late _ _ => (w.window.length : ℤ) + 1 < 2 ^ 63
  | _ => True

instance (w : Bench F B) : ∀ e : Event F, Decidable (w.Fits e)
  | .startProfiling _ => inferInstanceAs (Decidable True)
  | .stopProfiling _ _ => inferInstanceAs (Decidable True)
  | .interrupt _ _ => inferInstanceAs (Decidable (_ < _))
  | .late _ _ => inferInstanceAs (Decidable (_ < _))

/-- What a benchmark has sampled is shown as `shown` says when it is stopped. -/
def ShowsAs (shown : UnresolvedFrames F → Shown) (w : Bench F B) : Event F → Prop
  | .stopProfiling _ a => w.adapter.activeProfiler.isSome = true →
    State.ShownAs shown a.perfmap (w.window.map Sample.frames)
  | _ => True

end Bench

/-- The stack as a line has it. -/
def lineText (shown : Shown) : String := ";".intercalate (shown.1 :: shown.2.reverse)

/-- The sum of the counts of the lines with this text. -/
def countText (lines : List String) (text : String) : ℤ :=
  sumWhere Prod.fst Prod.snd (fun t => t == text) (lines.filterMap countedText)

/-- The file counts each stack as often as it was sampled. -/
def Content.Shows (shown : UnresolvedFrames F → Shown) (us : List (UnresolvedFrames F)) :
    Content → Prop
  | .empty => us = []
  | .profile p => ∀ stack, p.countShown stack = State.timesShown shown stack us
  | .svg lines => ∀ text,
    countText lines text = (us.filter fun u => lineText (shown u) == text).length
  | .part => False

/-! ### What is written -/

omit [Target] in
theorem text_shown (f : Frames) : lineText f.shown = ";".intercalate f.stackStrings := by
  rw [lineText, Frames.shown, Frames.stackStrings, List.map_reverse]

omit [Target] in
/-- The lines count each text as the entries that are shown so. -/
theorem countText_lines (r : Report) (text : String) :
    countText r.lines text
      = sumWhere Prod.fst Prod.snd (fun f : Frames => lineText f.shown == text) r.data := by
  have hread : r.lines.filterMap countedText
      = r.data.map fun entry => (lineText entry.1.shown, entry.2) := by
    have hline : ∀ entry ∈ r.data, countedText (entry.1.line entry.2)
        = some (lineText entry.1.shown, entry.2) := by
      intro entry _
      rw [Frames.countedText_line, text_shown]
    rw [Report.lines, List.filterMap_map, ← List.filterMap_eq_map]
    exact List.filterMap_congr hline
  rw [countText, hread, sumWhere, sumWhere, List.filter_map, List.map_map]
  rfl

omit [Frame F] [Target] in
/-- What is written for a report shows the stacks that the report counts. -/
theorem Output.render_shows {output : Output} {a : Stopping F} {r : Report} {content : Content}
    {shown : UnresolvedFrames F → Shown} {us : List (UnresolvedFrames F)}
    (hsum : ∀ P : Shown → Bool, sumWhere Prod.fst Prod.snd (fun f : Frames => P f.shown) r.data
      = (us.filter fun u => P (shown u)).length)
    (h : output.render a (.ok r) = .ok content) : content.Shows shown us := by
  have hperm := a.order.perm r
  cases output with
  | flamegraph =>
    simp only [render] at h
    split at h
    · rename_i hempty
      obtain rfl := Except.ok.inj h
      -- a report without entries counts nothing
      have hnil : (a.order.report r).data = [] :=
        List.map_eq_nil_iff.mp (List.isEmpty_iff.mp hempty)
      rw [hnil] at hperm
      have hzero := hsum fun _ => true
      rw [hperm.symm.eq_nil, List.filter_true] at hzero
      have hlength : us.length = 0 := Int.natCast_inj.mp hzero.symm
      exact List.length_eq_zero_iff.mp hlength
    · split at h
      · obtain rfl := Except.ok.inj h
        intro text
        rw [countText_lines, sumWhere_perm hperm]
        exact hsum fun shown => lineText shown == text
      · cases h
  | protobuf =>
    simp only [render] at h
    split at h
    · cases h
    · rename_i p hp
      split at h
      · obtain rfl := Except.ok.inj h
        intro stack
        have hencodes : r.Encodes p :=
          ⟨a.order.report r, a.order.strings _, hperm, a.order.timing r, hp⟩
        rw [hencodes.countShown]
        exact hsum fun shown => shown == stack
      · cases h
  | phantom => cases h

namespace Bench

variable [PlainLayout (Entry (UnresolvedFrames F)) B] {w w' : Bench F B}

/-! ### What the calls do -/

/-- The profiler is configured as the default builder does. -/
def Configured (w : Bench F B) : Prop :=
  ∀ p, w.profiler = .ok p → p.onStack = false ∧ p.blocklistSegments = []

/-- All but what was collected is the same. -/
structure Keeps (w w' : Bench F B) : Prop where
  action : w'.action = w.action
  itimer : w'.itimer = w.itimer
  adapter : w'.adapter = w.adapter
  session : w'.session = w.session
  files : w'.files = w.files
  running : w'.running = w.running
  configured : w.Configured → w'.Configured

variable [DefaultHasher]

omit [Demangle] in
theorem keeps_handle (w : Bench F B) (io : Io) (i : Interrupt F) : w.Keeps (w.handle io i) := by
  rw [handle]
  cases hp : w.profiler with
  | error err => exact ⟨rfl, rfl, rfl, rfl, rfl, rfl, id⟩
  | ok p =>
    -- the handler adds a sample, and leaves what start and build have set
    have hsame : (p.perfSignalHandler io i).running = p.running ∧
        (p.perfSignalHandler io i).onStack = p.onStack ∧
        (p.perfSignalHandler io i).blocklistSegments = p.blocklistSegments := by
      rw [Profiler.perfSignalHandler]
      cases p.recorded i with
      | none => exact ⟨rfl, rfl, rfl⟩
      | some frames => exact ⟨rfl, rfl, rfl⟩
    refine ⟨rfl, rfl, rfl, rfl, rfl, ?_, fun hconf q hq => ?_⟩
    · simp only [running, hp, hsame.1]
    · obtain rfl := Except.ok.inj hq
      rw [hsame.2.1, hsame.2.2]
      exact hconf p hp

omit [Demangle] in
theorem keeps_handleAll (w : Bench F B) (samples : List (Io × Interrupt F)) :
    w.Keeps (w.handleAll samples) := by
  induction samples generalizing w with
  | nil => exact ⟨rfl, rfl, rfl, rfl, rfl, rfl, id⟩
  | cons sample samples ih =>
    have hone := keeps_handle w sample.1 sample.2
    have hrest := ih (w.handle sample.1 sample.2)
    exact ⟨hrest.action.trans hone.action, hrest.itimer.trans hone.itimer,
      hrest.adapter.trans hone.adapter, hrest.session.trans hone.session,
      hrest.files.trans hone.files, hrest.running.trans hone.running,
      hrest.configured ∘ hone.configured⟩

omit [Frame F] [Demangle] [PlainLayout (Entry (UnresolvedFrames F)) B] [DefaultHasher] in
theorem running_eq_true : w.running = true ↔ ∃ p, w.profiler = .ok p ∧ p.running = true := by
  rw [running]
  cases w.profiler with
  | ok p => simp
  | error err => simp

omit [Demangle] in
/-- Everything the drop of a guard can do while the profiler runs: the timer is
disarmed; `stop` succeeds and the profiler is as new, or it fails and the
profiler runs on. -/
theorem dropGuard_cases (hrun : w.running = true) (a : Dropping F) :
    (w.dropGuard a).itimer = none ∧ (w.dropGuard a).adapter = w.adapter ∧
    (w.dropGuard a).session = w.session ∧ (w.dropGuard a).files = w.files ∧
    (w.Configured → (w.dropGuard a).Configured) ∧
    (((a.sigOk && a.tempfile) = true ∧ (w.dropGuard a).action = .ignore ∧
        (w.dropGuard a).window = [] ∧ ∃ p, (w.dropGuard a).profiler = .ok p ∧ p.running = false ∧
          p.data.Holds []) ∨
      ((a.sigOk && a.tempfile) = false ∧ (w.dropGuard a).running = true)) := by
  -- signals that come before the disposition changes only sample
  have hkeeps := keeps_handleAll { w with itimer := Timer.drop w.itimer } a.late
  obtain ⟨p, hp, hprun⟩ := running_eq_true.mp (hkeeps.running.trans hrun)
  have hitimer := hkeeps.itimer.trans (Timer.drop_eq_none w.itimer)
  have hstop := p.stop_cases a.sigOk a.tempfile
    ({ w with itimer := Timer.drop w.itimer }.handleAll a.late).action
  simp only [dropGuard, hp]
  refine ⟨hitimer, hkeeps.adapter, hkeeps.session, hkeeps.files, fun hconf q hq => ?_, ?_⟩
  · obtain rfl := Except.ok.inj hq
    have hpconf := hkeeps.configured hconf p hp
    obtain ⟨_, h⟩ | ⟨_, _, h⟩ | ⟨_, _, _, _, h⟩ | ⟨_, _, _, _, _, h⟩ := hstop <;>
      (rw [h]; exact hpconf)
  · -- stop fails at sigaction or at the new collector, or gets through
    obtain ⟨hstopped, _⟩ | ⟨_, hsig, h⟩ | ⟨_, _, htemp, err, h⟩ |
      ⟨_, hsig, htemp, data, hdata, h⟩ := hstop
    · rw [hprun] at hstopped
      cases hstopped
    · refine .inr ⟨by rw [hsig, Bool.false_and], ?_⟩
      simp only [running, h, hprun]
    · refine .inr ⟨by rw [htemp, Bool.and_false], ?_⟩
      simp only [running, h, hprun]
    · refine .inl ⟨by rw [hsig, htemp, Bool.and_self], ?_⟩
      rw [h]
      exact ⟨rfl, rfl, _, rfl, rfl, Collector.holds_of_new hdata⟩

omit [Demangle] in
/-- While the profiler runs `start_profiling` panics and changes nothing. -/
theorem startProfiling_running (hrun : w.running = true) (hconf : w.Configured) (a : Starting F) :
    w.startProfiling a = (.error (.guard .running), w) := by
  obtain ⟨p, hp, hprun⟩ := running_eq_true.mp hrun
  obtain ⟨honStack, hblocklist⟩ := hconf p hp
  -- the builder sets what is set already
  have hsame : w.adapter.builder.configure p = p := by
    cases p
    obtain rfl : _ = false := honStack
    obtain rfl : _ = [] := hblocklist
    rfl
  obtain ⟨_, hstart⟩ | ⟨hstopped, _⟩ | ⟨hstopped, _⟩ :=
    w.adapter.builder.start_cases a.sigOk w.action p
  · simp only [startProfiling, hp, hstart, hsame]
    rw [← hp]
  · rw [hprun] at hstopped
    cases hstopped
  · rw [hprun] at hstopped
    cases hstopped

omit [Demangle] in
/-- Everything `start_profiling` can do where there is no guard and the profiler
does not run. -/
theorem startProfiling_cases {p : Profiler F B} (hp : w.profiler = .ok p)
    (hrun : p.running = false) (hactive : w.adapter.activeProfiler = none) (a : Starting F) :
    (a.sigOk = false ∧ w.startProfiling a = (.error (.guard .nixError),
      { w with profiler := .ok (w.adapter.builder.configure p) })) ∨
    (w.adapter.frequency = 0 ∧ w.startProfiling a = (.error .divideByZero, { w with
      profiler := .ok { w.adapter.builder.configure p with
        oldSigaction := some w.action, running := true }
      action := .handle false, session := w.session + 1 })) ∨
    (a.sigOk = true ∧ w.adapter.frequency ≠ 0 ∧ ∃ timer itimer,
      w.startProfiling a = (.ok (), { w with
        profiler := .ok { w.adapter.builder.configure p with
          oldSigaction := some w.action, running := true }
        action := .handle false, itimer := itimer, session := w.session + 1
        adapter := { w.adapter with activeProfiler := some timer } })) := by
  obtain ⟨hr, _⟩ | ⟨_, hsig, hstart⟩ | ⟨_, hsig, hstart⟩ :=
    w.adapter.builder.start_cases a.sigOk w.action p
  · rw [hrun] at hr
    cases hr
  · refine .inl ⟨hsig, ?_⟩
    simp only [startProfiling, hp, hstart]
  · -- the profiler is marked as running before Timer::new divides by the frequency
    by_cases hfrequency : w.adapter.frequency = 0
    · have htimer : Timer.new w.adapter.builder.frequency a.startTime a.startInstant w.itimer
          = none := if_pos hfrequency
      refine .inr (.inl ⟨hfrequency, ?_⟩)
      simp only [startProfiling, hp, hstart, htimer]
      rfl
    · obtain ⟨timer, itimer, htimer⟩ : ∃ timer itimer, Timer.new w.adapter.builder.frequency
          a.startTime a.startInstant w.itimer = some (timer, itimer) := ⟨_, _, if_neg hfrequency⟩
      refine .inr (.inr ⟨hsig, hfrequency, timer, itimer, ?_⟩)
      simp only [startProfiling, hp, hstart, htimer, hactive, Option.isSome_none,
        Bool.false_eq_true, if_false]
      rfl

/-- Everything a `stop_profiling` that returns has done: there was no guard and
the file is empty, or there was one, and a report has been built and written. -/
theorem stopProfiling_cases {benchmarkDir : String} {a : Stopping F}
    (h : w.stopProfiling benchmarkDir a = (.ok (), w')) :
    (w.adapter.activeProfiler = none ∧ w' = { w with
      files := w.files ++ [((benchmarkDir, w.adapter.output.filename), .empty)] }) ∨
    ∃ timer report content u, w.adapter.activeProfiler = some timer ∧
      ((⟨none, timer.timing a.now⟩ : ReportBuilder).build a.io a.perfmap w.profiler).1
        = .ok report ∧
      w.adapter.output.render a (.ok report) = .ok content ∧
      u = { w with
        adapter := { w.adapter with activeProfiler := none }
        files := w.files ++ [((benchmarkDir, w.adapter.output.filename), content)] } ∧
      w' = u.dropGuard a.dropping := by
  simp only [stopProfiling] at h
  split at h
  · cases h
  split at h
  · cases h
  split at h
  · rename_i hactive
    exact .inl ⟨hactive, (Prod.mk.inj h).2.symm⟩
  · rename_i timer hactive
    split at h
    · rename_i content hrender
      -- the file is written from the report only when there is one
      cases hreport : ((⟨none, timer.timing a.now⟩ : ReportBuilder).build a.io a.perfmap
          w.profiler).1 with
      | error err =>
        rw [hreport] at hrender
        cases houtput : w.adapter.output <;> (rw [houtput] at hrender; cases hrender)
      | ok report =>
        rw [hreport] at hrender
        exact .inr ⟨timer, report, content, _, hactive, hreport, hrender, rfl,
          (Prod.mk.inj h).2.symm⟩
    · cases h

/-! ### The invariant -/

/-- The guard that is there is that of the running session. -/
structure Guarded (w : Bench F B) : Prop where
  configured : w.Configured
  active : w.adapter.activeProfiler.isSome = true →
    w.running = true ∧ w.adapter.frequency ≠ 0

structure Inv (w : Bench F B) : Prop extends Guarded w where
  /-- Where `stop` has failed nothing is reported any more. -/
  held : w.adapter.activeProfiler.isSome = true ∨ w.running = false →
    (w.window.length : ℤ) < 2 ^ 63 ∧ ∀ p, w.profiler = .ok p → Complete p w.window ∨ Lags p

/-- No handler was late. -/
structure OnTime (w : Bench F B) : Prop where
  active : w.adapter.activeProfiler.isSome = true → ∀ x ∈ w.window, x.session = w.session
  stopped : w.running = false → w.window = [] ∧ w.action.handler ≠ .perfSignalHandler

omit [Demangle] [DefaultHasher] in
theorem Init.inv (h : Init w) : w.Inv ∧ w.OnTime := by
  obtain ⟨tempfile, hnew⟩ := h.profiler
  have hok : ∀ p, w.profiler = .ok p → p.onStack = false ∧ p.blocklistSegments = [] ∧
      p.data.Holds [] := by
    intro p hp
    obtain ⟨data, hdata, rfl⟩ := Profiler.new_eq_ok (hnew.symm.trans hp)
    exact ⟨rfl, rfl, Collector.holds_of_new hdata⟩
  have hnone : ∀ {P : Prop}, w.adapter.activeProfiler.isSome = true → P := by
    intro P hactive
    rw [h.adapter] at hactive
    cases hactive
  refine ⟨⟨⟨fun p hp => ⟨(hok p hp).1, (hok p hp).2.1⟩, hnone⟩, fun _ => ?_⟩,
    ⟨hnone, fun _ => ⟨h.window, h.action⟩⟩⟩
  rw [h.window]
  exact ⟨by norm_num, fun p hp => .inl (complete_nil (hok p hp).2.2)⟩

omit [Demangle] in
theorem Guarded.handle (h : w.Guarded) (io : Io) (i : Interrupt F) : (w.handle io i).Guarded := by
  have hkeeps := keeps_handle w io i
  refine ⟨hkeeps.configured h.configured, ?_⟩
  rw [hkeeps.adapter, hkeeps.running]
  exact h.active

omit [Demangle] in
/-- The handler keeps the invariant. -/
theorem Inv.handle (h : w.Inv) (hlt : (w.window.length : ℤ) + 1 < 2 ^ 63) (io : Io)
    (i : Interrupt F) : (w.handle io i).Inv := by
  have hkeeps := keeps_handle w io i
  refine ⟨h.toGuarded.handle io i, ?_⟩
  rw [hkeeps.adapter, hkeeps.running]
  intro hneeded
  obtain ⟨hfew, hheld⟩ := h.held hneeded
  cases hp : w.profiler with
  | error err =>
    have hsame : w.handle io i = w := by simp only [Bench.handle, hp]
    rw [hsame]
    exact ⟨hfew, hheld⟩
  | ok p =>
    obtain ⟨hfew, hheld⟩ := handler_complete_or_lags (hheld p hp) hlt io i w.session rfl
    simp only [Bench.handle, hp]
    exact ⟨hfew, fun q hq => Except.ok.inj hq ▸ hheld⟩

omit [Demangle] in
theorem OnTime.handle (h : w.OnTime) (hinstalled : w.action.handler = .perfSignalHandler) (io : Io)
    (i : Interrupt F) : (w.handle io i).OnTime := by
  have hkeeps := keeps_handle w io i
  refine ⟨?_, fun hstopped => ?_⟩
  · rw [hkeeps.adapter, hkeeps.session]
    intro hactive x hx
    rw [Bench.handle] at hx
    split at hx
    · obtain hx | hx := List.mem_append.mp hx
      · obtain ⟨frames, _, rfl⟩ := List.mem_map.mp hx
        rfl
      · exact h.active hactive x hx
    · exact h.active hactive x hx
  · exact absurd hinstalled (h.stopped (hkeeps.running.symm.trans hstopped)).2

/-- A file, and the benchmark it is of. -/
def Written (shown : UnresolvedFrames F → Shown) (file : (String × String) × Content)
    (benchmark : Benchmark F) : Prop :=
  file.1 = benchmark.path ∧ file.2.Shows shown (benchmark.samples.map Sample.frames)

/-- A `start_profiling` that returns. -/
theorem Guarded.start_cases (h : w.Guarded) {a : Starting F}
    (hstep : w.step (.startProfiling a) = some w') :
    ∃ p timer itimer, w.profiler = .ok p ∧ w.running = false ∧ w.adapter.frequency ≠ 0 ∧
      w' = { w with
        profiler := .ok { w.adapter.builder.configure p with
          oldSigaction := some w.action, running := true }
        action := .handle false, itimer := itimer, session := w.session + 1
        adapter := { w.adapter with activeProfiler := some timer } } := by
  -- while the profiler runs, and so while there is a guard, the call panics
  have hrun : w.running = false := by
    rw [← Bool.not_eq_true]
    intro hrun
    simp only [Bench.step, startProfiling_running hrun h.configured a] at hstep
    cases hstep
  have hactive : w.adapter.activeProfiler = none := by
    rw [← Option.not_isSome_iff_eq_none]
    intro hsome
    rw [(h.active hsome).1] at hrun
    cases hrun
  cases hp : w.profiler with
  | error err =>
    simp only [Bench.step, startProfiling, hp, ProfilerGuardBuilder.start] at hstep
    cases hstep
  | ok p =>
    have hprun : p.running = false := by rw [← hrun, Bench.running, hp]
    obtain ⟨_, hstart⟩ | ⟨_, hstart⟩ | ⟨_, hfrequency, timer, itimer, hstart⟩ :=
      startProfiling_cases hp hprun hactive a
    · simp only [Bench.step, hstart] at hstep
      cases hstep
    · simp only [Bench.step, hstart] at hstep
      cases hstep
    · simp only [Bench.step, hstart] at hstep
      exact ⟨p, timer, itimer, rfl, hrun, hfrequency, (Option.some.inj hstep).symm⟩

/-- A `stop_profiling` that returns: without a guard it writes an empty file,
with one it writes the report, and then `stop` fails or the profiler is as new. -/
theorem Guarded.stop_cases (h : w.Guarded) {benchmarkDir : String} {a : Stopping F}
    (hstep : w.step (.stopProfiling benchmarkDir a) = some w') :
    (w.adapter.activeProfiler = none ∧ w' = { w with
      files := w.files ++ [((benchmarkDir, w.adapter.output.filename), .empty)] }) ∨
    (w.adapter.activeProfiler.isSome = true ∧
      (∃ timing report content,
        ((⟨none, timing⟩ : ReportBuilder).build a.io a.perfmap w.profiler).1 = .ok report ∧
        w.adapter.output.render a (.ok report) = .ok content ∧
        w'.files = w.files ++ [((benchmarkDir, w.adapter.output.filename), content)]) ∧
      w'.adapter.activeProfiler = none ∧ w'.Configured ∧
      (w'.running = true ∨ w'.action = .ignore ∧ w'.window = [] ∧
        ∃ p, w'.profiler = .ok p ∧ p.data.Holds [])) := by
  have hstop : w.stopProfiling benchmarkDir a = (.ok (), w') := by
    rw [Bench.step] at hstep
    split at hstep
    · rename_i hstop
      rw [hstop, Option.some.inj hstep]
    · cases hstep
  obtain hempty | ⟨timer, report, content, u, hactive, hreport, hrender, hu, rfl⟩ :=
    stopProfiling_cases hstop
  · exact .inl hempty
  · have hsome : w.adapter.activeProfiler.isSome = true := by
      rw [hactive]
      rfl
    -- the guard was that of the running session, and is dropped now
    have hrun : u.running = true := by
      rw [hu]
      exact (h.active hsome).1
    have hconf : u.Configured := by
      rw [hu]
      exact h.configured
    obtain ⟨_, hadapter, _, hfiles, hkeeps, hout⟩ := dropGuard_cases hrun a.dropping
    refine .inr ⟨hsome, ⟨_, report, content, hreport, hrender, ?_⟩, ?_, hkeeps hconf, ?_⟩
    · rw [hfiles, hu]
    · rw [hadapter, hu]
    · obtain ⟨_, haction, hwindow, p, hp, _, hholds⟩ | ⟨_, hrun'⟩ := hout
      · exact .inr ⟨haction, hwindow, p, hp, hholds⟩
      · exact .inl hrun'

omit [DefaultHasher] in
/-- A report of a profiler that has a guard is rendered as its samples. -/
theorem Inv.shows (h : w.Inv) {shown : UnresolvedFrames F → Shown} {a : Stopping F}
    (hactive : w.adapter.activeProfiler.isSome = true)
    (hshown : State.ShownAs shown a.perfmap (w.window.map Sample.frames)) {rb : ReportBuilder}
    (hnone : rb.framesPostProcessor = none) {report : Report} {content : Content}
    (hreport : (rb.build a.io a.perfmap w.profiler).1 = .ok report)
    (hrender : w.adapter.output.render a (.ok report) = .ok content) :
    content.Shows shown (w.window.map Sample.frames) := by
  obtain ⟨p, hp, _⟩ := running_eq_true.mp (h.active hactive).1
  obtain ⟨hfew, hheld⟩ := h.held (.inl hactive)
  rw [hp, ReportBuilder.build] at hreport
  obtain ⟨err, _, hbuild⟩ | ⟨es, hread, ⟨_, hbuild⟩ | ⟨hc, _⟩ | ⟨hc, _⟩⟩ :=
    rb.buildAndClear_cases a.io a.perfmap false p
  · rw [hbuild] at hreport
    cases hreport
  · rw [hbuild] at hreport
    obtain rfl := Except.ok.inj hreport
    obtain ⟨hes, hmem⟩ := counts_of_tryIter (hheld p hp) hread
    exact Output.render_shows (fun P => hes.sumShown hfew hmem hnone hshown P) hrender
  · cases hc
  · cases hc

theorem Guarded.step (h : w.Guarded) {e : Event F} (hstep : w.step e = some w') :
    w'.Guarded := by
  cases e with
  | startProfiling a =>
    obtain ⟨p, timer, itimer, _, _, hfrequency, rfl⟩ := h.start_cases hstep
    refine ⟨fun q hq => ?_, fun _ => ⟨rfl, hfrequency⟩⟩
    obtain rfl := Except.ok.inj hq
    exact ⟨rfl, rfl⟩
  | stopProfiling benchmarkDir a =>
    -- a stop that found no profiler to stop, or one that has dropped the guard
    obtain ⟨_, rfl⟩ | ⟨_, _, hnone, hconf, _⟩ := h.stop_cases hstep
    · exact ⟨h.configured, h.active⟩
    · refine ⟨hconf, fun hactive => ?_⟩
      rw [hnone] at hactive
      cases hactive
  | interrupt io i =>
    obtain ⟨_, hstep⟩ := Option.ite_none_right_eq_some.mp hstep
    obtain rfl := Option.some.inj hstep
    exact h.handle io i
  | late io i =>
    obtain rfl := Option.some.inj hstep
    exact h.handle io i

/-- A step keeps the invariant, and writes the file of the benchmark that it
stops. -/
theorem Inv.step (h : w.Inv) {shown : UnresolvedFrames F → Shown} {e : Event F}
    (hfits : w.Fits e) (hshows : w.ShowsAs shown e) (hstep : w.step e = some w') :
    w'.Inv ∧ ∃ new, w'.files = w.files ++ new ∧
      List.Forall₂ (Written shown) new (w.profiled e) := by
  have hguarded := h.toGuarded.step hstep
  cases e with
  | startProfiling a =>
    obtain ⟨p, timer, itimer, hp, hrun, _, rfl⟩ := h.start_cases hstep
    -- no guard was there, so the profiler had been stopped and holds its window
    obtain ⟨hfew, hheld⟩ := h.held (.inr hrun)
    refine ⟨⟨hguarded, fun _ => ⟨hfew, fun q hq => ?_⟩⟩, [], (List.append_nil _).symm, .nil⟩
    obtain rfl := Except.ok.inj hq
    exact (hheld p hp).imp (fun hcomplete => hcomplete.congr rfl) id
  | stopProfiling benchmarkDir a =>
    obtain ⟨hactive, rfl⟩ | ⟨hsome, ⟨timing, report, content, hreport, hrender, hfiles⟩, hnone,
      _, hout⟩ := h.stop_cases hstep
    · refine ⟨⟨hguarded, h.held⟩, _, rfl, .cons ⟨rfl, ?_⟩ .nil⟩
      rw [hactive]
      rfl
    · refine ⟨⟨hguarded, fun hneeded => ?_⟩, _, hfiles, .cons ⟨rfl, ?_⟩ .nil⟩
      · -- the guard is gone: either `stop` succeeded, or nothing is needed
        obtain hactive | hstopped := hneeded
        · rw [hnone] at hactive
          cases hactive
        · obtain hrun | ⟨_, hwindow, p, hp, hholds⟩ := hout
          · rw [hrun] at hstopped
            cases hstopped
          · rw [hwindow]
            refine ⟨by norm_num, fun q hq => .inl ?_⟩
            obtain rfl := Except.ok.inj (hp.symm.trans hq)
            exact complete_nil hholds
      · -- the report counts what was held
        rw [if_pos hsome]
        exact h.shows hsome (hshows hsome) rfl hreport hrender
  | interrupt io i =>
    obtain ⟨_, hstep⟩ := Option.ite_none_right_eq_some.mp hstep
    obtain rfl := Option.some.inj hstep
    exact ⟨h.handle hfits io i, [], by rw [(keeps_handle w io i).files, List.append_nil], .nil⟩
  | late io i =>
    obtain rfl := Option.some.inj hstep
    exact ⟨h.handle hfits io i, [], by rw [(keeps_handle w io i).files, List.append_nil], .nil⟩

/-- Without a late handler, what is held when a benchmark is stopped is of its
session. -/
theorem OnTime.step (h : w.OnTime) (hinv : w.Guarded) {e : Event F} (he : e.onTime = true)
    (hstep : w.step e = some w') :
    w'.OnTime ∧ ∀ b ∈ w.profiled e, ∀ x ∈ b.samples, x.session = b.session := by
  have hnone : w.profiled e = [] → ∀ b ∈ w.profiled e, ∀ x ∈ b.samples, x.session = b.session := by
    intro hnil b hb
    rw [hnil] at hb
    cases hb
  cases e with
  | startProfiling a =>
    obtain ⟨p, timer, itimer, hp, hrun, _, rfl⟩ := hinv.start_cases hstep
    refine ⟨⟨fun _ x hx => ?_, fun hstopped => by cases hstopped⟩, hnone rfl⟩
    -- the collector is empty when the session starts
    have hx : x ∈ w.window := hx
    rw [(h.stopped hrun).1] at hx
    cases hx
  | stopProfiling benchmarkDir a =>
    have hsamples : ∀ b ∈ w.profiled (.stopProfiling benchmarkDir a),
        ∀ x ∈ b.samples, x.session = b.session := by
      rw [profiled, List.forall_mem_singleton]
      intro x hx
      by_cases hsome : w.adapter.activeProfiler.isSome = true
      · rw [if_pos hsome] at hx
        exact h.active hsome x hx
      · rw [if_neg hsome] at hx
        cases hx
    refine ⟨?_, hsamples⟩
    obtain ⟨_, rfl⟩ | ⟨_, _, hnone, _, hout⟩ := hinv.stop_cases hstep
    · exact ⟨h.active, h.stopped⟩
    · refine ⟨fun hactive => ?_, fun hstopped => ?_⟩
      · rw [hnone] at hactive
        cases hactive
      · obtain hrun | ⟨haction, hwindow, _⟩ := hout
        · rw [hrun] at hstopped
          cases hstopped
        · refine ⟨hwindow, ?_⟩
          rw [haction]
          decide
  | interrupt io i =>
    obtain ⟨hinstalled, hstep⟩ := Option.ite_none_right_eq_some.mp hstep
    obtain rfl := Option.some.inj hstep
    exact ⟨h.handle hinstalled io i, hnone rfl⟩
  | late io i => cases he

/-- **Each file counts the samples of its benchmark.**  In a run in which no call
panics, though any write of the overflow file may fail and handlers may be late:
the files are those of the benchmarks, in order, and each shows every stack as
often as it was sampled since the collector was created.  If no handler was
late, these samples were all taken in the session of the benchmark. -/
theorem files_count {w₀ w : Bench F B} (hinit : Init w₀) {es : List (Event F)}
    (hrun : run step w₀ es = some w) (hfits : Along step Fits w₀ es)
    {shown : UnresolvedFrames F → Shown} (hshows : Along step (ShowsAs shown) w₀ es) :
    List.Forall₂ (Written shown) w.files (trace step profiled w₀ es) ∧
    ((∀ e ∈ es, e.onTime = true) →
      ∀ b ∈ trace step profiled w₀ es, ∀ x ∈ b.samples, x.session = b.session) := by
  obtain ⟨hinv, hontime⟩ := hinit.inv
  have halong := along_and hfits hshows
  constructor
  · have hstep : ∀ (w : Bench F B) e w', w.Inv → w.Fits e ∧ w.ShowsAs shown e →
        w.step e = some w' → w'.Inv ∧ ∃ new, w'.files = w.files ++ new ∧
          List.Forall₂ (Written shown) new (w.profiled e) := fun w e w' h he hstep =>
      h.step he.1 he.2 hstep
    obtain ⟨new, hfiles, hnew⟩ := run_logs hstep hinv halong hrun
    rw [hfiles, hinit.files]
    exact hnew
  · intro hall
    -- the session half needs only that no drop is overtaken by a signal
    have hlate : Along step (fun _ e => e.onTime = true) w₀ es :=
      along_of_forall (fun e he _ => hall e he) w₀
    refine forall_mem_trace (I := fun w => w.Guarded ∧ w.OnTime) (fun w e w' h he hstep => ?_)
      ⟨hinv.toGuarded, hontime⟩ hlate hrun
    obtain ⟨hontime', hsamples⟩ := h.2.step h.1 he hstep
    exact ⟨⟨h.1.step hstep, hontime'⟩, hsamples⟩

/-- Once its file is there, `stop_profiling` drops the guard, also where it
panics. -/
theorem stopProfiling_drops {timer : Timer} (hactive : w.adapter.activeProfiler = some timer)
    {a : Stopping F} (hdir : a.createDir = true) (hfile : a.createFile = true)
    (benchmarkDir : String) :
    ∃ files, (w.stopProfiling benchmarkDir a).2
      = { w with adapter := { w.adapter with activeProfiler := none }, files := files }.dropGuard
          a.dropping := by
  simp only [stopProfiling, hdir, hfile, Bool.not_true, Bool.false_eq_true, if_false, hactive]
  split
  · exact ⟨_, rfl⟩
  · exact ⟨_, rfl⟩

/-! ### A `stop` that fails -/

/-- The profiler runs, and there is no guard that could stop it. -/
structure Stuck (w : Bench F B) : Prop where
  running : w.running = true
  configured : w.Configured
  active : w.adapter.activeProfiler = none

omit [Demangle] in
theorem Stuck.handle (h : w.Stuck) (io : Io) (i : Interrupt F) : (w.handle io i).Stuck := by
  have hkeeps := keeps_handle w io i
  exact ⟨hkeeps.running.trans h.running, hkeeps.configured h.configured,
    hkeeps.adapter ▸ h.active⟩

/-- No call helps, whether it panics or returns. -/
theorem Stuck.caught (h : w.Stuck) {e : Event F} (hstep : w.caught e = some w') : w'.Stuck := by
  cases e with
  | startProfiling a =>
    obtain rfl := Option.some.inj hstep
    rw [startProfiling_running h.running h.configured a]
    exact h
  | stopProfiling benchmarkDir a =>
    obtain rfl := Option.some.inj hstep
    -- nothing is active, so stop_profiling only makes its file, or panics
    simp only [stopProfiling, h.active]
    split
    · exact h
    split
    · exact h
    · exact ⟨h.running, h.configured, h.active⟩
  | interrupt io i =>
    obtain ⟨_, hstep⟩ := Option.ite_none_right_eq_some.mp hstep
    exact Option.some.inj hstep ▸ h.handle io i
  | late io i => exact Option.some.inj hstep ▸ h.handle io i

theorem Stuck.run (h : w.Stuck) {es : List (Event F)}
    (hrun : Transition.run Bench.caught w es = some w') : w'.Stuck :=
  run_invariant (fun _ _ _ h hstep => h.caught hstep) h hrun

/-- **A benchmark holds the profiler until it is stopped, and no longer.**  While
one is profiled, `start_profiling` panics and changes nothing.  When
`stop_profiling` has created its file the timer is disarmed in the end, also if
a panic unwinds; if the calls in `stop` succeed the profiler can be started
again, and if one fails every later `start_profiling` panics, whatever calls
there are before it and whether or not these panic. -/
theorem restarts {w₀ w : Bench F B} (hinit : Init w₀) {es : List (Event F)}
    (hrun : run step w₀ es = some w) (hactive : w.adapter.activeProfiler.isSome = true) :
    (∀ a, w.startProfiling a = (.error (.guard .running), w)) ∧
    ∀ benchmarkDir a, a.createDir = true → a.createFile = true →
      ∃ w', (w.stopProfiling benchmarkDir a).2 = w' ∧ w'.itimer = none ∧
        w'.adapter.activeProfiler = none ∧
        if a.dropping.sigOk && a.dropping.tempfile then
          w'.action = .ignore ∧ w'.window = [] ∧
            ∀ a', a'.sigOk = true → (w'.startProfiling a').1 = .ok ()
        else ∀ es' w'', run caught w' es' = some w'' →
          ∀ a', w''.startProfiling a' = (.error (.guard .running), w'') := by
  -- the benchmark holds the one guard there is, and its frequency is not 0
  have h : w.Guarded :=
    run_invariant (fun _ _ _ h hstep => h.step hstep) hinit.inv.1.toGuarded hrun
  obtain ⟨hwrun, hfrequency⟩ := h.active hactive
  refine ⟨startProfiling_running hwrun h.configured, fun benchmarkDir a hdir hfile => ?_⟩
  obtain ⟨timer, htimer⟩ := Option.isSome_iff_exists.mp hactive
  obtain ⟨files, hdrop⟩ := stopProfiling_drops htimer hdir hfile benchmarkDir
  obtain ⟨hitimer, hadapter, _, _, hkeeps, hout⟩ := dropGuard_cases (w := { w with
    adapter := { w.adapter with activeProfiler := none }, files := files }) hwrun a.dropping
  rw [← hdrop] at hitimer hadapter hkeeps hout
  refine ⟨_, rfl, hitimer, by rw [hadapter], ?_⟩
  obtain ⟨hok, haction, hwindow, p, hp, hprun, _⟩ | ⟨hfailed, hrun'⟩ := hout
  · -- the drop got through: the profiler stands as a new one and starts again
    rw [if_pos hok]
    refine ⟨haction, hwindow, fun a' hsig => ?_⟩
    obtain ⟨hrefused, _⟩ | ⟨hzero, _⟩ | ⟨_, _, timer', itimer', hstart⟩ :=
      startProfiling_cases hp hprun (by rw [hadapter]) a'
    · rw [hsig] at hrefused
      cases hrefused
    · rw [hadapter] at hzero
      exact absurd hzero hfrequency
    · rw [hstart]
  · -- the drop failed: the profiler stays running with no guard left to stop it
    rw [if_neg (by rw [hfailed]; exact Bool.false_ne_true)]
    intro es' w'' hlater
    have hstuck : Stuck w'' :=
      Stuck.run ⟨hrun', hkeeps h.configured, by rw [hadapter]⟩ hlater
    exact startProfiling_running hstuck.running hstuck.configured

end Bench

end Pprof.Criterion

/-! ### Two benchmarks -/

namespace Pprof.Criterion

open Functions

/-- The calls and files succeed. -/
def starting : Starting Function := ⟨true, 0, 0, ⟨true, true, []⟩⟩

def stopping (sigOk : Bool) : Stopping Function :=
  ⟨true, true, 1, Io.ok, fun _ _ _ => none, .last, true, ⟨sigOk, true, []⟩⟩

def interrupt (address : ℕ) : Event Function :=
  .interrupt Io.ok ⟨none, [⟨address⟩], Given.threadName, 0x7FFFF7D8A740, 0⟩

/-- Before the first benchmark, with profiles as output. -/
def harness : Bench Function Item where
  profiler := Profiler.new true
  action := ⟨.sigDfl, []⟩
  itimer := none
  adapter := .new 99 .protobuf
  session := 0
  window := []
  files := []

/-- Two samples in a benchmark, and one in another. -/
def benchmarks : List (Event Function) :=
  [.startProfiling starting, interrupt 0x4028B0, interrupt 0x4035B0,
    .stopProfiling "first" (stopping true), .startProfiling starting, interrupt 0x4028B0,
    .stopProfiling "second" (stopping true)]

namespace Bench

/-- The second file counts one sample of the function, and nothing of the first. -/
theorem files_count_twice :
    ∃ w : Bench Function Item, run step harness benchmarks = some w ∧
      List.Forall₂ (Written shown) w.files
        (trace step profiled (harness : Bench Function Item) benchmarks) ∧
      ((trace step profiled (harness : Bench Function Item) benchmarks).map fun b =>
        (b.path, b.session, b.samples.length))
        = [(("first", "profile.pb"), 1, 2), (("second", "profile.pb"), 2, 1)] := by
  have hsome : (run step (harness : Bench Function Item) benchmarks).isSome := by decide +kernel
  obtain ⟨w, hrun⟩ := Option.isSome_iff_exists.mp hsome
  have hinit : Init harness := ⟨⟨true, rfl⟩, by decide, rfl, rfl, rfl⟩
  have hfits : Along step Fits harness benchmarks := by decide +kernel
  have hperfmap : ∀ e ∈ benchmarks, ∀ _ : Bench Function Item, ∀ dir a,
      e = .stopProfiling dir a → a.perfmap = fun _ _ _ => none := by
    simp [benchmarks, interrupt, stopping]
  have halike : Along step (fun w _ => ∀ u ∈ w.window.map Sample.frames,
      ∀ v ∈ w.window.map Sample.frames, u == v → shown u = shown v) harness benchmarks := by
    decide +kernel
  have hshows : Along step (ShowsAs shown) harness benchmarks := by
    refine along_mono (fun w e h => ?_) (along_and (along_of_forall hperfmap _) halike)
    cases e with
    | stopProfiling dir a =>
      obtain ⟨hnone, halike⟩ := h
      intro _
      rw [hnone dir a rfl]
      exact ⟨fun _ _ _ => rfl, halike⟩
    | _ => trivial
  exact ⟨w, hrun, (files_count hinit hrun hfits hshows).1, by decide +kernel⟩

/-- The second benchmark is stopped, but `sigaction` fails; stopping once more
does not help. -/
theorem restarts_refused :
    ∃ w : Bench Function Item, run step harness (benchmarks.take 6) = some w ∧
      w.startProfiling starting = (.error (.guard .running), w) ∧
      ∃ w', (w.stopProfiling "second" (stopping false)).2 = w' ∧
        ∀ w'', run caught w' [.startProfiling starting, .stopProfiling "second" (stopping true)]
          = some w'' → w''.startProfiling starting = (.error (.guard .running), w'') := by
  have hactive : ((run step (harness : Bench Function Item) (benchmarks.take 6)).map
      fun w => w.adapter.activeProfiler.isSome) = some true := by decide +kernel
  obtain ⟨w, hrun, hw⟩ := Option.map_eq_some_iff.mp hactive
  have hinit : Init harness := ⟨⟨true, rfl⟩, by decide, rfl, rfl, rfl⟩
  obtain ⟨hbusy, hstop⟩ := restarts hinit hrun hw
  obtain ⟨w', hw', _, _, hrefused⟩ := hstop "second" (stopping false) rfl rfl
  exact ⟨w, hrun, hbusy starting, w', hw', fun w'' hlater => hrefused _ w'' hlater starting⟩

end Bench

end Pprof.Criterion
