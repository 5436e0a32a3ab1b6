/-
The time windows of reports that clear.

A guard asks for a report (`report`), which notes the start of its timer and
the time since then, and hands out what was collected later (`build_and_clear`
with `true`).  Clearing resets the collector and not the timer, so every report
starts when the guard was made.

* `windows_apart_iff` — which runs have windows that do not overlap and hold the
  samples of their reports;
* `total_returned` — a report counts the samples of its window.

There is one clock, in nanoseconds; the system time is the clock from an epoch
on.  `Timer::new` reads the system time first and the clock after it.  `build`
holds the lock of `PROFILER` until the timer is made, so no sample is earlier.
-/
import Pprof.Recording

open ByteFile Transition Weight

namespace Pprof

/-- A report ends when it was asked for, on the clock of the timer. -/
theorem Timer.timing_end {t : Timer} {now : Instant} (h : t.startInstant ≤ now) :
    (t.timing now).startTime + ((t.timing now).duration : ℤ)
      = t.startTime + ((now : ℤ) - (t.startInstant : ℤ)) := by
  show t.startTime + ((now - t.startInstant : ℕ) : ℤ) = _
  rw [Nat.cast_sub h]

/-- A report that was returned: when it was asked for, and the samples that had
been taken since the collector was last cleared. -/
structure Returned (F : Type*) where
  requested : Instant
  report : Report
  window : List (Sample F)

variable [Target]

/-- A guard at work.  Only statements read the window and the reports that were
returned. -/
structure Collection (F B : Type*) where
  profiler : Profiler F B
  timer : Timer
  epoch : SystemTime
  now : Instant
  /-- When the report builders were made that have not been used. -/
  requests : List Instant
  window : List (Sample F)
  returned : List (Returned F)

namespace Collection

omit [Target] in
inductive Event (F : Type*) where
  | tick (elapsed : Duration)
  | sample (frames : List F) (threadName : ThreadName) (threadId : UInt64)
  | report
  /-- `build_and_clear(true)`, with the `i`-th builder. -/
  | build (i : ℕ) (framesPostProcessor : Option (ℕ → Frames → Frames))
      (perfmap : ℕ → ℕ → ℕ → Option Symbol)

variable {F B : Type*}

/-- The sample that is taken now. -/
def taken (s : Collection F B) (frames : List F) (threadName : ThreadName) (threadId : UInt64) :
    Sample F := ⟨.new frames threadName threadId (s.epoch + s.now), 0⟩

/-- A guard that has just been made. -/
structure Started (s : Collection F B) : Prop where
  data : Collector.new true = .ok s.profiler.data
  running : s.profiler.running = true
  start : s.timer.startTime ≤ s.epoch + s.timer.startInstant
  now : s.timer.startInstant ≤ s.now
  requests : s.requests = []
  window : s.window = []
  returned : s.returned = []

/-- The windows of reports do not overlap, in the order in which the reports were
returned, and every sample was taken inside the window of its report. -/
structure WindowsApart (s : Collection F B) : Prop where
  disjoint : s.returned.Pairwise fun r r' =>
    r.report.timing.startTime + (r.report.timing.duration : ℤ) ≤ r'.report.timing.startTime
  inside : ∀ r ∈ s.returned, ∀ x ∈ r.window,
    r.report.timing.startTime ≤ x.frames.sampleTimestamp ∧
      x.frames.sampleTimestamp ≤ r.report.timing.startTime + (r.report.timing.duration : ℤ)

variable [Frame F] [DefaultHasher] [PlainLayout (Entry (UnresolvedFrames F)) B] [Demangle]

/-- One event; file operations succeed. -/
def step (s : Collection F B) : Event F → Option (Collection F B)
  | .tick elapsed => some { s with now := s.now + elapsed }
  | .sample frames threadName threadId =>
    let x := s.taken frames threadName threadId
    some { s with profiler := s.profiler.sample Io.ok x.frames, window := x :: s.window }
  | .report => some { s with requests := s.requests ++ [s.now] }
  | .build i framesPostProcessor perfmap =>
    match s.requests[i]? with
    | none => none
    | some requested =>
      let rb : ReportBuilder := ⟨framesPostProcessor, s.timer.timing requested⟩
      match rb.buildAndClear Io.ok perfmap true (.ok s.profiler) with
      | (.ok report, .ok profiler) =>
        some { s with
          profiler := profiler, requests := s.requests.eraseIdx i, window := []
          returned := s.returned ++ [⟨requested, report, s.window⟩] }
      | (.error _, .ok profiler) =>
        some { s with profiler := profiler, requests := s.requests.eraseIdx i }
      | (_, .error _) => none

/-- What the two clocks say of a guard at work. -/
structure Timed (s : Collection F B) : Prop where
  holds : ∃ es, s.profiler.data.Holds es
  running : s.profiler.running = true
  start : s.timer.startTime ≤ s.epoch + s.timer.startInstant
  now : s.timer.startInstant ≤ s.now
  requests : ∀ requested ∈ s.requests, s.timer.startInstant ≤ requested
  window : ∀ x ∈ s.window, s.epoch + s.timer.startInstant ≤ x.frames.sampleTimestamp
  returned : ∀ r ∈ s.returned, s.timer.startInstant ≤ r.requested ∧
    r.report.timing = s.timer.timing r.requested

omit [DefaultHasher] [Demangle] in
theorem Started.timed {s : Collection F B} (h : s.Started) : s.Timed where
  holds := ⟨[], Collector.holds_of_new h.data⟩
  running := h.running
  start := h.start
  now := h.now
  requests := by
    rw [h.requests]
    exact fun _ hr => absurd hr List.not_mem_nil
  window := by
    rw [h.window]
    exact fun _ hx => absurd hx List.not_mem_nil
  returned := by
    rw [h.returned]
    exact fun _ hr => absurd hr List.not_mem_nil

/-- What the step does with a builder. -/
theorem Timed.build {s s' : Collection F B} (h : s.Timed) {i : ℕ}
    {framesPostProcessor : Option (ℕ → Frames → Frames)}
    {perfmap : ℕ → ℕ → ℕ → Option Symbol}
    (hstep : step s (.build i framesPostProcessor perfmap) = some s') :
    ∃ requested report es, s.requests[i]? = some requested ∧ s.profiler.data.Holds es ∧
      report = (⟨framesPostProcessor, s.timer.timing requested⟩ : ReportBuilder).report perfmap es ∧
      s' = { s with
        profiler := { s.profiler with
          sampleCounter := 0, data := (s.profiler.data.clear Io.ok).2 }
        requests := s.requests.eraseIdx i, window := []
        returned := s.returned ++ [⟨requested, report, s.window⟩] } := by
  rw [step] at hstep
  split at hstep
  · cases hstep
  · rename_i requested hrequested
    obtain ⟨es, hes⟩ := h.holds
    have hread : s.profiler.data.tryIter Io.ok = .ok es := hes.tryIter rfl
    simp only [ReportBuilder.buildAndClear_running _ perfmap h.running hread] at hstep
    exact ⟨requested, _, es, hrequested, hes, rfl, (Option.some.inj hstep).symm⟩

omit [DefaultHasher] [Demangle] [Frame F] [PlainLayout (Entry (UnresolvedFrames F)) B] in
theorem windowsApart_congr {s s' : Collection F B} (h : s'.returned = s.returned) :
    s'.WindowsApart ↔ s.WindowsApart := by
  constructor
  · intro hs
    exact ⟨h ▸ hs.disjoint, h ▸ hs.inside⟩
  · intro hs
    exact ⟨h ▸ hs.disjoint, h ▸ hs.inside⟩

/-- The step adds no window that overlaps an earlier one, or misses a sample of
its report: earlier reports were asked for when the timer was made, and the
samples were taken by the time at which the report was asked for, less what
`Timer::new` took between its two clocks. -/
def Apart (s : Collection F B) : Event F → Prop
  | .build i _ _ => ∀ requested, s.requests[i]? = some requested →
    (∀ r ∈ s.returned, r.requested = s.timer.startInstant) ∧
    ∀ x ∈ s.window, x.frames.sampleTimestamp + (s.epoch + s.timer.startInstant - s.timer.startTime)
      ≤ s.epoch + requested
  | _ => True

instance (s : Collection F B) : ∀ e, Decidable (Apart s e)
  | .build i _ _ =>
    match h : s.requests[i]? with
    | none => isTrue fun requested hr => by cases h.symm.trans hr
    | some requested =>
      decidable_of_iff ((∀ r ∈ s.returned, r.requested = s.timer.startInstant) ∧
        ∀ x ∈ s.window, x.frames.sampleTimestamp +
          (s.epoch + s.timer.startInstant - s.timer.startTime) ≤ s.epoch + requested)
        (by simp [Apart, h])
  | .tick _ | .sample _ _ _ | .report => inferInstanceAs (Decidable True)

/-- Every step keeps the times in order. -/
theorem Timed.step {s s' : Collection F B} {e : Event F} (h : s.Timed)
    (hstep : Collection.step s e = some s') : s'.Timed := by
  cases e with
  | tick elapsed =>
    obtain rfl := Option.some.inj hstep
    -- time only goes on
    have hnow : s.timer.startInstant ≤ s.now + elapsed := h.now.trans (Nat.le_add_right _ _)
    exact ⟨h.holds, h.running, h.start, hnow, h.requests, h.window, h.returned⟩
  | sample frames threadName threadId =>
    obtain rfl := Option.some.inj hstep
    obtain ⟨es, hes⟩ := h.holds
    obtain ⟨_, es', hes', _⟩ := hes.add_perm Io.ok rfl
      (s.taken frames threadName threadId).frames 1
    refine ⟨⟨es', hes'⟩, h.running, h.start, h.now, h.requests, fun x hx => ?_, h.returned⟩
    rcases List.mem_cons.mp hx with rfl | hx
    · have hnow : (s.timer.startInstant : ℤ) ≤ s.now := Int.ofNat_le.mpr h.now
      exact Int.add_le_add_left hnow s.epoch
    · exact h.window x hx
  | report =>
    obtain rfl := Option.some.inj hstep
    refine ⟨h.holds, h.running, h.start, h.now, fun requested hr => ?_, h.window, h.returned⟩
    rcases List.mem_append.mp hr with hr | hr
    · exact h.requests requested hr
    · obtain rfl := List.mem_singleton.mp hr
      exact h.now
  | build i framesPostProcessor perfmap =>
    -- the report is of a request, and the clear leaves nothing of the window
    obtain ⟨requested, report, es, hrequested, _, rfl, rfl⟩ := h.build hstep
    refine ⟨⟨[], (Collector.clear_holds s.profiler.data Io.ok rfl).2⟩, h.running, h.start, h.now,
      fun r hr => h.requests r (List.mem_of_mem_eraseIdx hr),
      fun _ hx => absurd hx List.not_mem_nil, fun r hr => ?_⟩
    rcases List.mem_append.mp hr with hr | hr
    · exact h.returned r hr
    · obtain rfl := List.mem_singleton.mp hr
      exact ⟨h.requests requested (List.mem_of_getElem? hrequested), rfl⟩

omit [DefaultHasher] [Demangle] in
/-- All reports start at the same time: one ends before another starts only if
it was asked for when the timer was made. -/
theorem Timed.ends_before_iff {s : Collection F B} (h : s.Timed) {r : Returned F}
    (hr : r ∈ s.returned) :
    r.report.timing.startTime + (r.report.timing.duration : ℤ) ≤ s.timer.startTime ↔
      r.requested = s.timer.startInstant := by
  obtain ⟨hle, htiming⟩ := h.returned r hr
  rw [htiming, Timer.timing_end hle, add_le_iff_nonpos_right, sub_nonpos, Nat.cast_le]
  constructor
  · intro hge
    exact hge.antisymm hle
  · intro heq
    exact heq.le

omit [DefaultHasher] [Demangle] in
/-- A sample is inside the window of a request exactly if it was taken early
enough. -/
theorem Timed.inside_iff {s : Collection F B} (h : s.Timed) {requested : Instant}
    (hr : requested ∈ s.requests) {x : Sample F} (hx : x ∈ s.window) :
    ((s.timer.timing requested).startTime ≤ x.frames.sampleTimestamp ∧
      x.frames.sampleTimestamp ≤
        (s.timer.timing requested).startTime + ((s.timer.timing requested).duration : ℤ)) ↔
    x.frames.sampleTimestamp + (s.epoch + s.timer.startInstant - s.timer.startTime)
      ≤ s.epoch + requested := by
  have hlower := h.window x hx
  have hstart := h.start
  have hle := h.requests requested hr
  rw [Timer.timing_end hle]
  constructor
  · rintro ⟨_, hupper⟩
    linarith
  · intro hearly
    refine ⟨hstart.trans hlower, ?_⟩
    linarith

theorem windowsApart_step {s s' : Collection F B} {e : Event F} (h : s.Timed)
    (hstep : step s e = some s') : s'.WindowsApart ↔ s.WindowsApart ∧ Apart s e := by
  cases e with
  | tick elapsed =>
    have hreturned : s'.returned = s.returned := by rw [← Option.some.inj hstep]
    rw [windowsApart_congr hreturned]
    exact (and_iff_left trivial).symm
  | sample frames threadName threadId =>
    have hreturned : s'.returned = s.returned := by rw [← Option.some.inj hstep]
    rw [windowsApart_congr hreturned]
    exact (and_iff_left trivial).symm
  | report =>
    have hreturned : s'.returned = s.returned := by rw [← Option.some.inj hstep]
    rw [windowsApart_congr hreturned]
    exact (and_iff_left trivial).symm
  | build i framesPostProcessor perfmap =>
    obtain ⟨requested, report, es, hrequested, _, rfl, rfl⟩ := h.build hstep
    have hmem : requested ∈ s.requests := List.mem_of_getElem? hrequested
    constructor
    · intro hs
      -- the report that is returned is the last of them
      obtain ⟨hdisjoint, _, hlast⟩ := List.pairwise_append.mp hs.disjoint
      refine ⟨⟨hdisjoint, fun r hr => hs.inside r (List.mem_append_left _ hr)⟩, ?_⟩
      intro requested' hrequested'
      obtain rfl := Option.some.inj (hrequested.symm.trans hrequested')
      refine ⟨fun r hr => ?_, fun x hx => ?_⟩
      · exact (h.ends_before_iff hr).mp (hlast r hr _ (List.mem_singleton.mpr rfl))
      · exact (h.inside_iff hmem hx).mp
          (hs.inside _ (List.mem_append_right _ (List.mem_singleton.mpr rfl)) x hx)
    · rintro ⟨hs, hapart⟩
      obtain ⟨hearlier, hwindow⟩ := hapart requested hrequested
      refine ⟨List.pairwise_append.mpr ⟨hs.disjoint, List.pairwise_singleton _ _, ?_⟩, ?_⟩
      · intro r hr r' hr'
        obtain rfl := List.mem_singleton.mp hr'
        exact (h.ends_before_iff hr).mpr (hearlier r hr)
      · intro r hr x hx
        rcases List.mem_append.mp hr with hr | hr
        · exact hs.inside r hr x hx
        · obtain rfl := List.mem_singleton.mp hr
          exact (h.inside_iff hmem hx).mpr (hwindow x hx)

/-- **The windows of reports that clear.**  Windows are apart and hold the
samples of their reports exactly in the runs in which every report that is
returned finds the earlier ones asked for when the timer was made, and its own
samples taken early enough before it was asked for. -/
theorem windows_apart_iff {s₀ s : Collection F B} (hstarted : s₀.Started) {es : List (Event F)}
    (hrun : run step s₀ es = some s) : s.WindowsApart ↔ Along step Apart s₀ es := by
  have hsteps : ∀ (s : Collection F B) e s', s.Timed → step s e = some s' →
      s'.Timed ∧ (s'.WindowsApart ↔ s.WindowsApart ∧ Apart s e) :=
    fun s e s' h hstep => ⟨h.step hstep, windowsApart_step h hstep⟩
  have hempty : s₀.WindowsApart := by
    constructor
    · rw [hstarted.returned]
      exact List.Pairwise.nil
    · rw [hstarted.returned]
      exact fun _ hr => absurd hr List.not_mem_nil
  rw [holds_at_end_iff hsteps hstarted.timed hrun]
  exact and_iff_right hempty

/-- The profiler counts the samples of the window, and every report those of its
own. -/
structure Tallied (s : Collection F B) : Prop where
  counts : ∃ es, Counts s.profiler s.window es
  returned : ∀ r ∈ s.returned, r.report.total = r.window.length

/-- A step with room for a sample keeps the count. -/
theorem Tallied.step {s s' : Collection F B} {e : Event F} (ht : s.Timed) (h : s.Tallied)
    (hlt : (s.window.length : ℤ) + 1 < 2 ^ 63) (hstep : Collection.step s e = some s') :
    s'.Tallied := by
  obtain ⟨es, hes⟩ := h.counts
  cases e with
  | tick elapsed =>
    obtain rfl := Option.some.inj hstep
    exact ⟨⟨es, hes⟩, h.returned⟩
  | sample frames threadName threadId =>
    obtain rfl := Option.some.inj hstep
    obtain ⟨es', hes', _⟩ := hes.sample hlt (s.taken frames threadName threadId)
    exact ⟨⟨es', hes'⟩, h.returned⟩
  | report =>
    obtain rfl := Option.some.inj hstep
    exact ⟨⟨es, hes⟩, h.returned⟩
  | build i framesPostProcessor perfmap =>
    -- the report is built from the items of the window, and a new window begins
    obtain ⟨requested, report, items, _, hitems, rfl, rfl⟩ := ht.build hstep
    have hread : s.profiler.data.tryIter Io.ok = .ok items := hitems.tryIter rfl
    obtain rfl := Except.ok.inj (hread.symm.trans (hes.holds.tryIter rfl))
    refine ⟨⟨[], Counts.nil (Collector.clear_holds s.profiler.data Io.ok rfl).2⟩, fun r hr => ?_⟩
    rcases List.mem_append.mp hr with hr | hr
    · exact h.returned r hr
    · obtain rfl := List.mem_singleton.mp hr
      exact State.total_report hes (by omega) _ perfmap

/-- Every report that is returned counts the samples of its window. -/
theorem total_returned {s₀ s : Collection F B} (hstarted : s₀.Started) {es : List (Event F)}
    (hlt : Along step (fun s _ => (s.window.length : ℤ) + 1 < 2 ^ 63) s₀ es)
    (hrun : run step s₀ es = some s) : ∀ r ∈ s.returned, r.report.total = r.window.length := by
  have hsteps : ∀ (s : Collection F B) e s', s.Timed ∧ s.Tallied →
      (s.window.length : ℤ) + 1 < 2 ^ 63 → step s e = some s' → s'.Timed ∧ s'.Tallied :=
    fun s e s' h hlt hstep => ⟨h.1.step hstep, h.2.step h.1 hlt hstep⟩
  have htallied : s₀.Tallied := by
    constructor
    · rw [hstarted.window]
      exact ⟨[], Counts.nil (Collector.holds_of_new hstarted.data)⟩
    · rw [hstarted.returned]
      exact fun _ hr => absurd hr List.not_mem_nil
  exact (run_invariant_along hsteps ⟨hstarted.timed, htallied⟩ hlt hrun).2.returned

end Collection

end Pprof

namespace Pprof.Given

/-- A guard that has just been made; `Timer::new` read its clocks 40 nanoseconds
apart. -/
def newCollection : Collection ℕ Item :=
  ⟨{ newRecording.profiler with running := true }, ⟨99, 1700000000000000000, 40⟩,
    1700000000000000000, 40, [], [], []⟩

theorem newCollection_started : newCollection.Started :=
  ⟨rfl, rfl, by decide, by decide, rfl, rfl, rfl⟩

/-- A second passes, a sample is taken, and a millisecond later it is reported. -/
def oneReport : List (Collection.Event ℕ) :=
  [.tick 1000000000, .sample [0x401136] threadName 0x7FFFF7D8A740, .tick 1000000, .report,
    .build 0 none fun _ _ _ => none]

end Pprof.Given

namespace Pprof.Collection

open Given

theorem windows_apart_one_report : ∃ s : Collection ℕ Item,
    run step newCollection oneReport = some s ∧ s.returned.length = 1 ∧ s.WindowsApart := by
  have hreturned : (run step newCollection oneReport).map (fun s => s.returned.length)
      = some 1 := by decide +kernel
  obtain ⟨s, hrun, hone⟩ := Option.map_eq_some_iff.mp hreturned
  exact ⟨s, hrun, hone,
    (windows_apart_iff newCollection_started hrun).mpr (by decide +kernel)⟩

/-- Both of two reports start when the guard was made. -/
theorem not_windows_apart_twice : ∃ s : Collection ℕ Item, newCollection.Started ∧
    run step newCollection (oneReport ++ oneReport) = some s ∧
    s.returned.map (fun r => r.report.timing) =
      [⟨99, 1700000000000000000, 1001000000⟩, ⟨99, 1700000000000000000, 2002000000⟩] ∧
    ¬ s.WindowsApart := by
  have htimings : (run step newCollection (oneReport ++ oneReport)).map
      (fun s => s.returned.map fun r => r.report.timing) = some
        [⟨99, 1700000000000000000, 1001000000⟩, ⟨99, 1700000000000000000, 2002000000⟩] := by
    decide +kernel
  obtain ⟨s, hrun, hs⟩ := Option.map_eq_some_iff.mp htimings
  refine ⟨s, newCollection_started, hrun, hs, fun hapart => ?_⟩
  have hdisjoint : (s.returned.map fun r => r.report.timing).Pairwise fun t t' =>
      t.startTime + (t.duration : ℤ) ≤ t'.startTime := List.pairwise_map.mpr hapart.disjoint
  rw [hs] at hdisjoint
  have hfirst := (List.pairwise_cons.mp hdisjoint).1 _ (List.mem_singleton.mpr rfl)
  revert hfirst
  decide

end Pprof.Collection
