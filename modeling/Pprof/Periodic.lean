/-
Periodic collection: every sample is delivered once.

The samples of the current window, those taken since the collector was created
or last cleared, are what the collector holds (`Tracked`).  A report call that
clears hands them all out and empties the window, a sample adds itself to it,
and no other step of a session changes it (`window_cases`).  So along a session
the samples that were handed out and those in the window are all that were
taken (`every_sample_once`), in total and for each class of equal stacks.
-/
import Pprof.Process
import Pprof.Transition

open ByteFile Transition Weight Wrapping
open scoped List

namespace Pprof

/-- A sample as an entry of the collector. -/
def Sample.entry {F : Type*} (x : Sample F) : Entry (UnresolvedFrames F) := ⟨x.frames, 1⟩

@[simp] theorem Sample.count_entry {F : Type*} (x : Sample F) : x.entry.count = 1 := rfl

theorem sum_entry {F : Type*} (window : List (Sample F)) :
    ((window.map Sample.entry).map Entry.count).sum = window.length := by
  induction window with
  | nil => rfl
  | cons x window ih =>
    rw [List.map_cons, List.map_cons, List.sum_cons, ih, List.length_cons, Sample.count_entry]
    omega

variable {F B : Type*} [Frame F] [Target] [PlainLayout (Entry (UnresolvedFrames F)) B]

/-- The entries `es` of the profiler count the samples of the window. -/
structure Counts (p : Profiler F B) (window : List (Sample F))
    (es : List (Entry (UnresolvedFrames F))) : Prop where
  holds : p.data.Holds es
  pos : ∀ e ∈ es, 0 < e.count
  count : ∀ k, countOf k es = countOf k (window.map Sample.entry)

theorem Counts.sum {p : Profiler F B} {window : List (Sample F)}
    {es : List (Entry (UnresolvedFrames F))} (h : Counts p window es) :
    (es.map Entry.count).sum = window.length := by
  have hsum : (es.map Entry.count).sum = ((window.map Sample.entry).map Entry.count).sum :=
    sum_eq_of_weight_eq h.count
  rw [hsum, sum_entry]

theorem Counts.exact {p : Profiler F B} {window : List (Sample F)}
    {es : List (Entry (UnresolvedFrames F))} (h : Counts p window es)
    (hlt : (window.length : ℤ) < 2 ^ 63) : Exact es where
  pos := h.pos
  sum_lt := by
    rw [h.sum]
    exact hlt

theorem Counts.nil {p : Profiler F B} (h : p.data.Holds []) : Counts p [] [] :=
  ⟨h, fun _ he => absurd he List.not_mem_nil, fun _ => rfl⟩

/-- A sample adds itself to what is counted: to the live entry of its class, or
as an entry. -/
theorem Counts.sample [DefaultHasher] {p : Profiler F B} {window : List (Sample F)}
    {es : List (Entry (UnresolvedFrames F))} (h : Counts p window es)
    (hlt : (window.length : ℤ) + 1 < 2 ^ 63) (x : Sample F) :
    ∃ es', Counts (p.sample Io.ok x.frames) (x :: window) es' ∧
      (∀ e, p.data.map.live x.frames = some e → (e.increase 1).count = e.count + 1 ∧
        ∃ rest, es ~ e :: rest ∧ es' ~ e.increase 1 :: rest) ∧
      (p.data.map.live x.frames = none → es' ~ x.entry :: es) := by
  -- no count exceeds the number of samples
  have hle : ∀ e ∈ es, InRange 64 (e.count + (1 : Int64).toInt) := by
    intro e he
    show InRange 64 (e.count + 1)
    have hone : e.count ≤ (es.map Entry.count).sum := val_le_sum (fun e he => (h.pos e he).le) he
    rw [h.sum] at hone
    have hpos := h.pos e he
    refine ⟨?_, ?_⟩
    · omega
    · show e.count + 1 < 2 ^ 63
      omega
  obtain ⟨_, es', hes', hhit, hmiss, hcount, hforall⟩ :=
    h.holds.add Io.ok rfl (h.holds.addFits hle x.frames)
  have hincrease : ∀ e ∈ es, (e.increase 1).count = e.count + 1 :=
    fun e he => Entry.count_increase_of_inRange (hle e he)
  refine ⟨es', ⟨hes', hforall (fun e => 0 < e.count) h.pos (fun e he _ => ?_) Int.one_pos, ?_⟩,
    fun e hlive => ?_, hmiss⟩
  · have hpos := h.pos e he
    show 0 < (e.increase 1).count
    rw [hincrease e he]
    omega
  · intro k
    rw [hcount, List.map_cons, countOf, countOf, weight_cons, weight_cons, ← countOf, ← countOf,
      h.count]
    rfl
  · obtain ⟨rest, hbefore, hafter⟩ := hhit e hlive
    exact ⟨hincrease e (hbefore.mem_iff.mpr List.mem_cons_self), rest, hbefore, hafter⟩

namespace State

/-- The profiler holds the samples of the window, and its counter their number. -/
def Tracked (s : State F B) : Prop :=
  ∀ p, s.profiler = .ok p →
    p.sampleCounter = s.window.length ∧ (s.window.length : ℤ) < 2 ^ 31 ∧
      ∃ es, Counts p s.window es

/-- The file operations of the step succeed, and the sample counter does not
overflow. -/
def Clean (s : State F B) : Event F → Prop
  | .handle io _ => io = Io.ok ∧ ∀ p, s.profiler = .ok p → InRange 32 (p.sampleCounter + 1)
  | .report _ io _ _ => io = Io.ok
  | .dropStop _ tempfile => tempfile = true
  | _ => True

instance (s : State F B) : ∀ e, Decidable (Clean s e)
  | .handle io _ =>
    match h : s.profiler with
    | .ok p =>
      decidable_of_iff (io = Io.ok ∧ InRange 32 (p.sampleCounter + 1)) (by simp [Clean, h])
    | .error _ => decidable_of_iff (io = Io.ok) (by simp [Clean, h])
  | .report _ io _ _ => inferInstanceAs (Decidable (io = Io.ok))
  | .dropStop _ tempfile => inferInstanceAs (Decidable (tempfile = true))
  | .readLock | .readUnlock | .buildLock _ | .buildStart _ | .buildArm _ _ | .dropDisarm _
  | .dropLock _ | .expire | .deliver | .tryWrite _ | .unresolved _ _ | .reportLock | .unlock =>
    inferInstanceAs (Decidable True)

/-- The step ends the session: its `stop` succeeds. -/
def Ends (s : State F B) : Event F → Bool
  | .dropStop sigOk tempfile => s.running && sigOk && tempfile
  | _ => false

/-- A clean step that does not end the session. -/
def Within (s : State F B) (e : Event F) : Prop :=
  Clean s e ∧ Ends s e = false

instance (s : State F B) (e : Event F) : Decidable (Within s e) :=
  inferInstanceAs (Decidable (_ ∧ _))

/-- The samples a step takes. -/
def samples (s : State F B) : Event F → List (UnresolvedFrames F)
  | .handle _ interrupt =>
    match s.holder, s.profiler with
    | .handling _, .ok p => (p.recorded interrupt).toList
    | _, _ => []
  | _ => []

/-- The report that a call of `build_and_clear(true)` returns. -/
def returned [Demangle] (s : State F B) : Event F → List Report
  | .report rb io perfmap true =>
    if s.holder = .reporting then
      (rb.buildAndClear io perfmap true s.profiler).1.toOption.toList
    else []
  | _ => []

/-- The part of the counts of that report that came from the class `k`. -/
def returnedOf [Demangle] (k : UnresolvedFrames F) (s : State F B) : Event F → List ℤ
  | .report rb io perfmap true =>
    match s.holder, s.profiler with
    | .reporting, .ok p =>
      match p.data.tryIter io, (rb.buildAndClear io perfmap true (.ok p)).1 with
      | .ok items, .ok report =>
        [(report.data.map fun entry => part (rb.framesKey perfmap) items entry.1 k).sum]
      | _, _ => []
    | _, _ => []
  | _ => []

variable [DefaultHasher] [Demangle]

omit [Demangle] in
/-- A clean invocation of the handler keeps count of its sample. -/
theorem Tracked.handled {s : State F B} (hs : Tracked s) {p : Profiler F B}
    (hp : s.profiler = .ok p) (hfits : InRange 32 (p.sampleCounter + 1)) (i : Interrupt F)
    (session : ℕ) :
    Tracked { s with
      profiler := .ok (p.perfSignalHandler Io.ok i), holder := .leaving
      window := (p.recorded i).toList.map (fun frames => ⟨frames, session⟩) ++ s.window } := by
  intro p' hp'
  obtain rfl := Except.ok.inj hp'
  obtain ⟨hcounter, hlt, es, hes⟩ := hs p hp
  -- the counter is the length of the window, and does not wrap
  have hmax : (s.window.length : ℤ) + 1 < 2 ^ 31 := hcounter ▸ hfits.2
  rw [Profiler.perfSignalHandler]
  cases hrec : p.recorded i with
  | none => exact ⟨hcounter, hlt, es, hes⟩
  | some frames =>
    obtain ⟨es', hes', _, _⟩ := hes.sample (by omega) ⟨frames, session⟩
    refine ⟨?_, ?_, es', hes'⟩
    · show wrap 32 (p.sampleCounter + 1) = ((s.window.length + 1 : ℕ) : ℤ)
      rw [wrap_eq (by decide) hfits, hcounter]
      omega
    · show ((s.window.length + 1 : ℕ) : ℤ) < 2 ^ 31
      omega

omit [DefaultHasher] in
/-- What a report call without failures does to a tracked profiler. -/
theorem Tracked.buildAndClear_cases {s : State F B} (hs : Tracked s) {p : Profiler F B}
    (hp : s.profiler = .ok p) (rb : ReportBuilder) (perfmap : ℕ → ℕ → ℕ → Option Symbol)
    (clear : Bool) : ∃ items, Counts p s.window items ∧ p.data.tryIter Io.ok = .ok items ∧
      ((clear = true ∧ p.running = true ∧ rb.buildAndClear Io.ok perfmap clear (.ok p)
        = (.ok (rb.report perfmap items),
          .ok { p with sampleCounter := 0, data := (p.data.clear Io.ok).2 })) ∨
      (clear = true ∧ p.running = false ∧ rb.buildAndClear Io.ok perfmap clear (.ok p)
        = (.error .notRunning, .ok p)) ∨
      (clear = false ∧ rb.buildAndClear Io.ok perfmap clear (.ok p)
        = (.ok (rb.report perfmap items), .ok p))) := by
  obtain ⟨_, _, items, hitems⟩ := hs p hp
  have hread : p.data.tryIter Io.ok = .ok items := hitems.holds.tryIter rfl
  refine ⟨items, hitems, hread, ?_⟩
  cases clear with
  | false =>
    refine .inr (.inr ⟨rfl, ?_⟩)
    rw [ReportBuilder.buildAndClear]
    simp only [hread]
    rfl
  | true =>
    -- the clear behind the report is refused by a profiler that is not running
    cases hrun : p.running with
    | true => exact .inl ⟨rfl, rfl, hrun ▸ rb.buildAndClear_running perfmap hrun hread⟩
    | false =>
      have hclear : p.clear Io.ok = (.error .notRunning, p) := by
        rw [Profiler.clear, hrun]
        rfl
      refine .inr (.inl ⟨rfl, rfl, ?_⟩)
      rw [ReportBuilder.buildAndClear]
      simp only [hread, if_true, hclear]

omit [DefaultHasher] in
/-- What `build` returns counts the window. -/
theorem Tracked.build {s : State F B} (hs : Tracked s) {p : Profiler F B}
    (hp : s.profiler = .ok p) (rb : ReportBuilder) (perfmap : ℕ → ℕ → ℕ → Option Symbol) :
    ∃ items, Counts p s.window items ∧ p.data.tryIter Io.ok = .ok items ∧
      rb.build Io.ok perfmap (.ok p) = (.ok (rb.report perfmap items), .ok p) := by
  obtain ⟨items, hitems, hread, ⟨hc, _⟩ | ⟨hc, _⟩ | ⟨_, h⟩⟩ :=
    hs.buildAndClear_cases hp rb perfmap false
  · cases hc
  · cases hc
  · exact ⟨items, hitems, hread, h⟩

omit [DefaultHasher] [Demangle] in
theorem Tracked.lt {s : State F B} (hs : Tracked s) {p : Profiler F B} (hp : s.profiler = .ok p) :
    (s.window.length : ℤ) < 2 ^ 63 := by
  obtain ⟨_, hlt, _⟩ := hs p hp
  omega

omit [DefaultHasher] [Demangle] in
theorem Init.tracked {s : State F B} (h : Init s) : Tracked s := by
  intro p hp
  obtain ⟨tempfile, hnew⟩ := h.profiler
  obtain ⟨data, hdata, rfl⟩ := Profiler.new_eq_ok (hnew.symm.trans hp)
  rw [h.window]
  exact ⟨rfl, by norm_num, [], Counts.nil (Collector.holds_of_new hdata)⟩

omit [DefaultHasher] [Demangle] in
/-- A step that leaves the collector, the counter and the window alone. -/
theorem Tracked.same {s s' : State F B} (hs : Tracked s) {p p' : Profiler F B}
    (hp : s.profiler = .ok p) (hp' : s'.profiler = .ok p') (hdata : p'.data = p.data)
    (hcounter : p'.sampleCounter = p.sampleCounter) (hwindow : s'.window = s.window) :
    Tracked s' := by
  intro q hq
  obtain rfl := Except.ok.inj (hp'.symm.trans hq)
  obtain ⟨hcount, hlt, es, hes⟩ := hs p hp
  rw [hwindow, hcounter]
  exact ⟨hcount, hlt, es, hdata ▸ hes.holds, hes.pos, hes.count⟩

/-- A clean step keeps track of the samples. -/
theorem Tracked.step {s s' : State F B} {e : Event F} (hs : Tracked s) (hclean : Clean s e)
    (h : s.step e = some s') : Tracked s' := by
  cases Step.of_step h with
  | refused hholder hp => exact hs.same hp rfl rfl rfl rfl
  | started hholder hp => exact hs.same hp rfl rfl rfl rfl
  | stopFailed hholder hp hrun hcause =>
    -- the only clean failure is that of `sigaction`
    obtain ⟨_, rfl, _⟩ | ⟨_, htemp, _⟩ := hcause
    · exact hs.same hp rfl rfl rfl rfl
    · rw [hclean] at htemp
      cases htemp
  | stopped hholder hp hrun hdata =>
    intro p' hp'
    obtain rfl := Except.ok.inj hp'
    exact ⟨rfl, by norm_num, [], Counts.nil (Collector.holds_of_new hdata)⟩
  | delivered =>
    rw [Tracked, deliver_profiler, deliver_window]
    exact hs
  | @handled v p io interrupt hholder hp =>
    obtain ⟨rfl, hfits⟩ := hclean
    exact hs.handled hp (hfits p hp) interrupt v.session
  | @reported rb io perfmap clear hholder =>
    obtain rfl : io = Io.ok := hclean
    intro p' hp'
    cases hp : s.profiler with
    | error err =>
      rw [hp] at hp'
      cases hp'
    | ok p =>
      rw [hp] at hp'
      obtain ⟨items, hitems, _, ⟨rfl, _, hbuild⟩ | ⟨rfl, _, hbuild⟩ | ⟨rfl, hbuild⟩⟩ :=
        hs.buildAndClear_cases hp rb perfmap clear
      · rw [hbuild] at hp' ⊢
        obtain rfl := Except.ok.inj hp'
        refine ⟨rfl, by norm_num [Except.isOk, Except.toBool], [], ?_⟩
        exact Counts.nil (Collector.clear_holds p.data Io.ok rfl).2
      · rw [hbuild] at hp' ⊢
        obtain rfl := Except.ok.inj hp'
        exact hs p hp
      · rw [hbuild] at hp' ⊢
        obtain rfl := Except.ok.inj hp'
        exact hs p hp
  | _ => exact hs

theorem tracked_of_within (s : State F B) (e : Event F) (s' : State F B) (hs : Tracked s)
    (hwithin : Within s e) (h : s.step e = some s') : Tracked s' := hs.step hwithin.1 h

/-- What a clean step of a session does to the window. -/
theorem window_cases {s s' : State F B} {e : Event F} (hs : Tracked s) (hwithin : Within s e)
    (h : s.step e = some s') :
    (samples s e = [] ∧ returned s e = [] ∧ (∀ k, returnedOf k s e = []) ∧ s'.window = s.window) ∨
    (∃ x : Sample F, samples s e = [x.frames] ∧ returned s e = [] ∧ (∀ k, returnedOf k s e = []) ∧
      s'.window = x :: s.window) ∨
    (samples s e = [] ∧ s'.window = [] ∧ ∃ (rb : ReportBuilder) (perfmap : _) (p : Profiler F B)
      (items : _), s.profiler = .ok p ∧ Counts p s.window items ∧
      returned s e = [rb.report perfmap items] ∧
      ∀ k, returnedOf k s e = [((rb.report perfmap items).data.map fun entry =>
        part (rb.framesKey perfmap) items entry.1 k).sum]) := by
  cases Step.of_step h with
  | moved h' he hquiet hold =>
    cases e with
    | handle io i => cases he
    | report rb io perfmap clear => cases he
    | _ => exact .inl ⟨rfl, rfl, fun _ => rfl, rfl⟩
  | stopped hholder hp hrun =>
    -- a `stop` that succeeds ends the session
    have hends := hwithin.2
    rw [Ends, running_ok hp, hrun] at hends
    cases hends
  | delivered => exact .inl ⟨rfl, rfl, fun _ => rfl, deliver_window s⟩
  | @handled v p io interrupt hholder hp =>
    -- the handler takes the sample, or the address is blocked
    have hsamples : samples s (.handle io interrupt) = (p.recorded interrupt).toList := by
      rw [samples, hholder, hp]
    rw [hsamples]
    cases p.recorded interrupt with
    | none => exact .inl ⟨rfl, rfl, fun _ => rfl, rfl⟩
    | some frames => exact .inr (.inl ⟨⟨frames, v.session⟩, rfl, rfl, fun _ => rfl, rfl⟩)
  | @handledNone v err io interrupt hholder hp =>
    have hsamples : samples s (.handle io interrupt) = [] := by rw [samples, hholder, hp]
    exact .inl ⟨hsamples, rfl, fun _ => rfl, rfl⟩
  | @reported rb io perfmap clear hholder =>
    obtain rfl : io = Io.ok := hwithin.1
    -- only a call that clears hands out; without a profiler it fails
    cases clear with
    | false => exact .inl ⟨rfl, rfl, fun _ => rfl, rfl⟩
    | true =>
      cases hp : s.profiler with
      | error err =>
        have hreturned : returned s (.report rb Io.ok perfmap true) = [] := by
          rw [returned, if_pos hholder, hp]
          rfl
        exact .inl ⟨rfl, hreturned, fun k => by simp only [returnedOf, hholder, hp], rfl⟩
      | ok p =>
        obtain ⟨items, hitems, hread, ⟨_, _, hbuild⟩ | ⟨_, _, hbuild⟩ | ⟨hc, _⟩⟩ :=
          hs.buildAndClear_cases hp rb perfmap true
        · -- the report is returned and the window emptied, or the profiler does not run
          refine .inr (.inr ⟨rfl, ?_, rb, perfmap, p, items, rfl, hitems, ?_, fun k => ?_⟩)
          · simp only [hbuild, Except.isOk, Except.toBool, Bool.and_self, if_true]
          · rw [returned, if_pos hholder, hp, hbuild]
            rfl
          · simp only [returnedOf, hholder, hp, hread, hbuild]
        · refine .inl ⟨rfl, ?_, fun k => ?_, ?_⟩
          · rw [returned, if_pos hholder, hp, hbuild]
            rfl
          · simp only [returnedOf, hholder, hp, hread, hbuild]
          · simp [hbuild, Except.isOk, Except.toBool]
        · cases hc
  | _ => exact .inl ⟨rfl, rfl, fun _ => rfl, rfl⟩

omit [DefaultHasher] in
theorem total_report {p : Profiler F B} {window : List (Sample F)}
    {items : List (Entry (UnresolvedFrames F))} (h : Counts p window items)
    (hlt : (window.length : ℤ) < 2 ^ 63) (rb : ReportBuilder)
    (perfmap : ℕ → ℕ → ℕ → Option Symbol) : (rb.report perfmap items).total = window.length :=
  (sum_collect (h.exact hlt) _).trans h.sum

omit [DefaultHasher] in
/-- A report counts the samples of the window. -/
theorem Tracked.counted {s : State F B} (hs : Tracked s) {p : Profiler F B}
    (hp : s.profiler = .ok p) (rb : ReportBuilder) (perfmap : ℕ → ℕ → ℕ → Option Symbol)
    (clear : Bool) {report : Report}
    (h : (rb.buildAndClear Io.ok perfmap clear (.ok p)).1 = .ok report) :
    report.total = s.window.length ∧ ∃ items, p.data.tryIter Io.ok = .ok items ∧
      ∀ k, (report.data.map fun entry => part (rb.framesKey perfmap) items entry.1 k).sum
        = countOf k (s.window.map Sample.entry) := by
  have hlt := hs.lt hp
  obtain ⟨items, hitems, hread, hcase⟩ := hs.buildAndClear_cases hp rb perfmap clear
  have hreport : report = rb.report perfmap items := by
    obtain ⟨_, _, hbuild⟩ | ⟨_, _, hbuild⟩ | ⟨_, hbuild⟩ := hcase
    · rw [hbuild] at h
      exact (Except.ok.inj h).symm
    · rw [hbuild] at h
      cases h
    · rw [hbuild] at h
      exact (Except.ok.inj h).symm
  rw [hreport]
  refine ⟨total_report hitems hlt rb perfmap, items, hread, fun k => ?_⟩
  rw [← hitems.count]
  exact sum_part (hitems.exact hlt) (rb.framesKey perfmap) k

/-- Along a session, what was handed out and what is in the window add up to
what was taken. -/
theorem window_conserved {s₀ s : State F B} (hs : Tracked s₀) {es : List (Event F)}
    (hrun : run step s₀ es = some s)
    (hwithin : Along step Within s₀ es) :
    (s.window.length : ℤ) + (trace step (fun s e => (returned s e).map Report.total) s₀ es).sum
      = s₀.window.length + ((trace step samples s₀ es).length : ℤ) := by
  have hmoves : ∀ (s : State F B) e s', Tracked s → Within s e → s.step e = some s' →
      (s'.window.length : ℤ) + ((returned s e).map Report.total).sum
        = s.window.length + ((samples s e).map fun _ => (1 : ℤ)).sum := by
    intro s e s' hs he h
    obtain ⟨hsamples, hreturned, _, hw⟩ | ⟨x, hsamples, hreturned, _, hw⟩ |
        ⟨hsamples, hw, rb, perfmap, p, items, hp, hitems, hreturned, _⟩ :=
      window_cases hs he h
    · simp [hsamples, hreturned, hw]
    · simp [hsamples, hreturned, hw]
    · simp [hsamples, hreturned, hw, total_report hitems (hs.lt hp)]
  have hrun' := run_conserves tracked_of_within hmoves hs hwithin hrun
  have hones : ∀ l : List (UnresolvedFrames F), (l.map fun _ => (1 : ℤ)).sum = l.length := by simp
  rwa [trace_map samples, hones] at hrun'

/-- The same for each class of equal stacks. -/
theorem window_conserved_class {s₀ s : State F B} (hs : Tracked s₀) {es : List (Event F)}
    (hrun : run step s₀ es = some s)
    (hwithin : Along step Within s₀ es) (k : UnresolvedFrames F) :
    countOf k (s.window.map Sample.entry) + (trace step (returnedOf k) s₀ es).sum
      = countOf k (s₀.window.map Sample.entry)
        + (((trace step samples s₀ es).filter (· == k)).length : ℤ) := by
  -- one step: a sample goes into the window, a clearing report takes the window out
  have hmoves : ∀ (s : State F B) e s', Tracked s → Within s e → s.step e = some s' →
      countOf k (s'.window.map Sample.entry) + (returnedOf k s e).sum
        = countOf k (s.window.map Sample.entry)
          + ((samples s e).map fun x => if x == k then (1 : ℤ) else 0).sum := by
    intro s e s' hs he h
    obtain ⟨hsamples, _, hof, hw⟩ | ⟨x, hsamples, _, hof, hw⟩ |
        ⟨hsamples, hw, rb, perfmap, p, items, hp, hitems, _, hof⟩ :=
      window_cases hs he h
    · simp [hsamples, hof, hw]
    · have hcons : countOf k ((x :: s.window).map Sample.entry)
          = (if x.frames == k then 1 else 0) + countOf k (s.window.map Sample.entry) := rfl
      rw [hsamples, hof, hw, hcons]
      simp [add_comm]
    · have hpart := sum_part (hitems.exact (hs.lt hp)) (rb.framesKey perfmap) k
      rw [hof, hw, hsamples, ← hitems.count, ← hpart]
      simp [ReportBuilder.report]
  have hrun' := run_conserves tracked_of_within hmoves hs hwithin hrun
  -- as many ones as there are samples of the class
  have hfilter : ∀ l : List (UnresolvedFrames F),
      (l.map fun x => if x == k then (1 : ℤ) else 0).sum = (l.filter (· == k)).length := by
    intro l
    have h : ((l.filter (· == k)).map fun _ => (1 : ℤ)).sum = weight id (fun _ => 1) k l :=
      sum_filter_key _
    have hweight : (l.map fun x => if x == k then (1 : ℤ) else 0).sum
        = weight id (fun _ => 1) k l := rfl
    rw [hweight, ← h]
    simp
  rwa [trace_map samples, hfilter] at hrun'

/-- **Every sample is delivered exactly once.**  In a session that starts with
an empty collector, the counts of the reports that `build_and_clear(true)`
returned and those that `build` would return now add up to the number of
samples taken; for every class of equal stacks, so do the parts of the counts
that came from it.  A report total does not depend on the post processor, and
the report calls that do not clear leave the profiler as it is. -/
theorem every_sample_once {s₀ s : State F B} {p₀ : Profiler F B} (hp₀ : s₀.profiler = .ok p₀)
    (hcounter : p₀.sampleCounter = 0) (hempty : p₀.data.Holds []) (hwindow : s₀.window = [])
    {es : List (Event F)} (hrun : run step s₀ es = some s)
    (hwithin : Along step Within s₀ es)
    {p : Profiler F B} (hp : s.profiler = .ok p) :
    (∀ (rb : ReportBuilder) perfmap, ∃ now items,
      rb.build Io.ok perfmap (.ok p) = (.ok now, .ok p) ∧ p.data.tryIter Io.ok = .ok items ∧
      (trace step (fun s e => (returned s e).map Report.total) s₀ es).sum + now.total
        = (trace step samples s₀ es).length ∧
      (∀ entry ∈ now.data, entry.2 = weight Prod.fst (fun c => c.2.count) entry.1
        (keyed (rb.framesKey perfmap) items)) ∧
      ∀ k, (trace step (returnedOf k) s₀ es).sum +
          (now.data.map fun entry => part (rb.framesKey perfmap) items entry.1 k).sum
        = ((trace step samples s₀ es).filter (· == k)).length) ∧
    (∀ (rb rb' : ReportBuilder) perfmap perfmap' now now',
      (rb.build Io.ok perfmap (.ok p)).1 = .ok now →
      (rb'.build Io.ok perfmap' (.ok p)).1 = .ok now' → now.total = now'.total) ∧
    (∀ (rb : ReportBuilder) io perfmap,
      (rb.buildAndClear io perfmap false (.ok p)).2 = .ok p ∧
      (rb.build io perfmap (.ok p)).2 = .ok p) ∧
    ∀ (rb : ReportBuilder) io s', s.step (.unresolved rb io) = some s' → s' = s := by
  -- the run starts with an empty collector, so nothing is counted yet and the counter is 0
  have hs₀ : Tracked s₀ := by
    intro q hq
    obtain rfl := Except.ok.inj (hp₀.symm.trans hq)
    rw [hcounter, hwindow]
    exact ⟨rfl, by norm_num, [], Counts.nil hempty⟩
  have hs : Tracked s := run_invariant_along tracked_of_within hs₀ hwithin hrun
  have hlt := hs.lt hp
  refine ⟨fun rb perfmap => ?_, ?_, fun rb io perfmap =>
    ⟨rb.buildAndClear_keeps io perfmap p, rb.buildAndClear_keeps io perfmap p⟩,
    fun rb io s' h => ?_⟩
  · obtain ⟨items, hitems, hread, hnow⟩ := hs.build hp rb perfmap
    have htotal := window_conserved hs₀ hrun hwithin
    refine ⟨_, items, hnow, hread, ?_, fun entry he => ?_, fun k => ?_⟩
    · -- the reports returned so far plus the window are the window at the start plus the samples
      rw [total_report hitems hlt]
      rw [hwindow, List.length_nil] at htotal
      omega
    · exact count_collect (hitems.exact hlt) _ he
    · -- the same of one class: its parts in the entries of the report sum to its count
      have hclass := window_conserved_class hs₀ hrun hwithin k
      have hpart := sum_part (hitems.exact hlt) (rb.framesKey perfmap) k
      have hnil : countOf k (([] : List (Sample F)).map Sample.entry) = 0 := rfl
      rw [hitems.count] at hpart
      rw [hwindow, hnil] at hclass
      show _ + ((collect (rb.framesKey perfmap) items).map fun entry => _).sum = _
      rw [hpart]
      omega
  · intro rb rb' perfmap perfmap' now now' hnow hnow'
    obtain ⟨items, hitems, _, h⟩ := hs.build hp rb perfmap
    obtain ⟨items', hitems', _, h'⟩ := hs.build hp rb' perfmap'
    rw [h] at hnow
    rw [h'] at hnow'
    rw [← Except.ok.inj hnow, ← Except.ok.inj hnow', total_report hitems hlt,
      total_report hitems' hlt]
  · simp only [State.step] at h
    split at h
    · rw [← Option.some.inj h, rb.buildUnresolved_keeps]
    · cases h

end State

end Pprof

/-! ### A session with two reports -/

namespace Pprof.Given

/-- A report builder without a post processor. -/
def builder : ReportBuilder := ⟨none, ⟨99, 0, 0⟩⟩

/-- The handler samples a stack of one function. -/
def sampled : Event ℕ :=
  .handle Io.ok ⟨none, [0x4028B0], threadName, 0x7FFFF7D8A740, 0⟩

def sampling : List (Event ℕ) := [.expire, .deliver, .tryWrite 0, sampled, .unlock]

def periodic : List (Event ℕ) :=
  buildCall .default true ++ sampling ++
    [.reportLock, .report builder Io.ok (fun _ _ _ => none) true, .unlock] ++ sampling

end Pprof.Given

namespace Pprof.State

open Given

/-- Two samples of one stack, one of them before the report that clears. -/
theorem every_sample_once_twice :
    ∃ (s : State ℕ Item) (p : Profiler ℕ Item) (now : Report),
      run step (idle true) periodic = some s ∧ s.profiler = .ok p ∧
      (builder.build Io.ok (fun _ _ _ => none) (.ok p)).1 = .ok now ∧
      (trace step (fun s e => (returned s e).map Report.total) (idle true : State ℕ Item)
        periodic).sum + now.total = 2 := by
  have hrun : run step (idle true : State ℕ Item) periodic = some _ := rfl
  have hwithin : Along step Within (idle true : State ℕ Item) periodic := by decide
  have h := every_sample_once rfl rfl
    (Collector.holds_of_new (rfl : Collector.new true = _)) rfl hrun hwithin rfl
  obtain ⟨now, _, hnow, _, htotal, _⟩ := h.1 builder fun _ _ _ => none
  exact ⟨_, _, now, hrun, rfl, by rw [hnow], htotal⟩

end Pprof.State
