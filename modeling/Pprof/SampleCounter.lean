/-
The sample counter.

`sample_counter` is an `i32` that is reset with the collector, while the counts
of the entries are `isize`.  A run is any sequence of the four methods of the
profiler, calls that are refused included; the file operations succeed, and
`taken` are the samples since the collector was made or cleared.

* `Sampling.Inv.step` — as long as fewer than 2^31 samples are taken between
  resets, each call keeps the counter equal to their number;
* `Sampling.counts_iff` — the counter is the sum of the counts, and does not
  overflow, exactly along the runs that stay below.
-/
import Pprof.Periodic

open ByteFile Transition Wrapping

namespace Pprof

variable [Target]

/-- A profiler, the disposition of `SIGPROF`, and the samples since the last
reset. -/
structure Sampling (F B : Type*) where
  profiler : Profiler F B
  action : SigAction
  taken : List (Sample F)

namespace Sampling

/-- A call of a method; the flag is the answer of `sigaction`. -/
inductive Call (F : Type*) where
  | start (sigOk : Bool)
  | sample (x : Sample F)
  | clear
  | stop (sigOk : Bool)

variable {F B : Type*}

/-- A profiler that has just been made. -/
def Fresh (s : Sampling F B) : Prop := Profiler.new true = .ok s.profiler ∧ s.taken = []

variable [Frame F] [DefaultHasher] [PlainLayout (Entry (UnresolvedFrames F)) B]

/-- What a call does; a reset that is refused or fails leaves the samples. -/
def step (s : Sampling F B) : Call F → Option (Sampling F B)
  | .start sigOk =>
    let started := s.profiler.start sigOk s.action
    some ⟨started.2.1, started.2.2, s.taken⟩
  | .sample x => some ⟨s.profiler.sample Io.ok x.frames, s.action, x :: s.taken⟩
  | .clear =>
    let cleared := s.profiler.clear Io.ok
    some ⟨cleared.2, s.action, if cleared.1.isOk then [] else s.taken⟩
  | .stop sigOk =>
    let stopped := s.profiler.stop sigOk true s.action
    some ⟨stopped.2.1, stopped.2.2, if stopped.1.isOk then [] else s.taken⟩

omit [Frame F] [DefaultHasher] in
/-- The counter is the sum of the counts of what the collector yields. -/
def Agrees (s : Sampling F B) : Prop :=
  ∃ items, s.profiler.data.tryIter Io.ok = .ok items ∧
    s.profiler.sampleCounter = (items.map Entry.count).sum

omit [Frame F] [DefaultHasher] [PlainLayout (Entry (UnresolvedFrames F)) B] in
/-- The increment of a sample does not overflow. -/
def NoOverflow (s : Sampling F B) : Call F → Prop
  | .sample _ => InRange 32 (s.profiler.sampleCounter + 1)
  | _ => True

omit [Frame F] [DefaultHasher] [PlainLayout (Entry (UnresolvedFrames F)) B] in
/-- There is room for one more sample. -/
def Fits (s : Sampling F B) : Call F → Prop
  | .sample _ => (s.taken.length : ℤ) + 1 < 2 ^ 31
  | _ => True

omit [Frame F] [DefaultHasher] [PlainLayout (Entry (UnresolvedFrames F)) B] in
instance decidableFits (s : Sampling F B) : ∀ call, Decidable (s.Fits call)
  | .sample _ => inferInstanceAs (Decidable ((s.taken.length : ℤ) + 1 < 2 ^ 31))
  | .start _ => inferInstanceAs (Decidable True)
  | .clear => inferInstanceAs (Decidable True)
  | .stop _ => inferInstanceAs (Decidable True)

/-- No increment of the run overflows, and the counter agrees in every state. -/
def CountsSamples (s₀ : Sampling F B) (calls : List (Call F)) : Prop :=
  Along step NoOverflow s₀ calls ∧
    ∀ ys, ys <+: calls → ∀ s, run step s₀ ys = some s → s.Agrees

omit [DefaultHasher] in
/-- The counter and the entries count the samples that were taken. -/
structure Inv (s : Sampling F B) : Prop where
  counter : s.profiler.sampleCounter = s.taken.length
  lt : (s.taken.length : ℤ) < 2 ^ 31
  counts : ∃ es, Counts s.profiler s.taken es

omit [DefaultHasher] in
theorem Fresh.inv {s : Sampling F B} (h : s.Fresh) : s.Inv := by
  obtain ⟨hnew, htaken⟩ := h
  obtain ⟨data, hdata, hp⟩ := Profiler.new_eq_ok hnew
  refine ⟨?_, ?_, [], ?_⟩
  · rw [hp, htaken]
    rfl
  · rw [htaken]
    norm_num
  · rw [hp, htaken]
    exact Counts.nil (Collector.holds_of_new hdata)

omit [DefaultHasher] in
theorem Inv.agrees {s : Sampling F B} (h : s.Inv) : s.Agrees := by
  obtain ⟨es, hes⟩ := h.counts
  exact ⟨es, hes.holds.tryIter rfl, by rw [h.counter, hes.sum]⟩

omit [DefaultHasher] in
theorem Inv.noOverflow_iff {s : Sampling F B} (h : s.Inv) (call : Call F) :
    s.NoOverflow call ↔ s.Fits call := by
  cases call with
  | sample x =>
    show -2 ^ 31 ≤ s.profiler.sampleCounter + 1 ∧ s.profiler.sampleCounter + 1 < 2 ^ 31 ↔
      (s.taken.length : ℤ) + 1 < 2 ^ 31
    rw [h.counter]
    omega
  | start sigOk => exact Iff.rfl
  | clear => exact Iff.rfl
  | stop sigOk => exact Iff.rfl

omit [DefaultHasher] in
/-- A call that leaves the collector, the counter and the samples alone. -/
theorem Inv.same {s s' : Sampling F B} (h : s.Inv) (hdata : s'.profiler.data = s.profiler.data)
    (hcounter : s'.profiler.sampleCounter = s.profiler.sampleCounter)
    (htaken : s'.taken = s.taken) : s'.Inv := by
  obtain ⟨es, hes⟩ := h.counts
  refine ⟨by rw [hcounter, htaken, h.counter], by rw [htaken]; exact h.lt, es, ?_⟩
  rw [htaken]
  exact ⟨hdata ▸ hes.holds, hes.pos, hes.count⟩

omit [DefaultHasher] in
/-- A call that resets all three. -/
theorem Inv.reset {s : Sampling F B} (hdata : s.profiler.data.Holds [])
    (hcounter : s.profiler.sampleCounter = 0) (htaken : s.taken = []) : s.Inv := by
  refine ⟨by rw [hcounter, htaken]; rfl, by rw [htaken]; norm_num, [], ?_⟩
  rw [htaken]
  exact Counts.nil hdata

/-- Each call keeps the counter equal to the number of samples. -/
theorem Inv.step {s s' : Sampling F B} (h : s.Inv) {call : Call F} (hfits : s.Fits call)
    (hstep : s.step call = some s') : s'.Inv := by
  cases call with
  | start sigOk =>
    obtain rfl := Option.some.inj hstep
    obtain ⟨_, hs⟩ | ⟨_, _, hs⟩ | ⟨_, _, hs⟩ := s.profiler.start_cases sigOk s.action
    · exact h.same (by rw [hs]) (by rw [hs]) rfl
    · exact h.same (by rw [hs]) (by rw [hs]) rfl
    · exact h.same (by rw [hs]) (by rw [hs]) rfl
  | sample x =>
    obtain rfl := Option.some.inj hstep
    have hlt : (s.taken.length : ℤ) + 1 < 2 ^ 31 := hfits
    obtain ⟨es, hes⟩ := h.counts
    obtain ⟨es', hes', _⟩ := hes.sample (by omega) x
    refine ⟨?_, ?_, es', hes'⟩
    · show wrap 32 (s.profiler.sampleCounter + 1) = ((s.taken.length + 1 : ℕ) : ℤ)
      -- the counter does not wrap
      have hrange : InRange 32 (s.profiler.sampleCounter + 1) := (h.noOverflow_iff _).mpr hfits
      rw [wrap_eq (by decide) hrange, h.counter]
      omega
    · show ((s.taken.length + 1 : ℕ) : ℤ) < 2 ^ 31
      omega
  | clear =>
    obtain rfl := Option.some.inj hstep
    obtain ⟨_, hs⟩ | ⟨_, _, hs⟩ | ⟨_, hio, _⟩ := s.profiler.clear_cases Io.ok
    · exact h.same (by rw [hs]) (by rw [hs]) (by rw [hs]; rfl)
    · -- a clear forgets all samples
      refine Inv.reset ?_ (by rw [hs]) (by rw [hs]; rfl)
      rw [hs]
      exact (Collector.clear_holds s.profiler.data Io.ok rfl).2
    · cases hio
  | stop sigOk =>
    obtain rfl := Option.some.inj hstep
    obtain ⟨_, hs⟩ | ⟨_, _, hs⟩ | ⟨_, _, htempfile, _⟩ | ⟨_, _, _, data, hdata, hs⟩ :=
      s.profiler.stop_cases sigOk true s.action
    · exact h.same (by rw [hs]) (by rw [hs]) (by rw [hs]; rfl)
    · exact h.same (by rw [hs]) (by rw [hs]) (by rw [hs]; rfl)
    · cases htempfile
    · refine Inv.reset ?_ (by rw [hs]) (by rw [hs]; rfl)
      rw [hs]
      exact Collector.holds_of_new hdata

/-- **When the counter counts the samples**: along a run of calls from a new
profiler no increment overflows and the counter is the sum of the counts in
every state, if and only if every sample finds fewer than 2^31 - 1 samples
since the last reset. -/
theorem counts_iff {s₀ : Sampling F B} (hfresh : s₀.Fresh) (calls : List (Call F)) :
    s₀.CountsSamples calls ↔ Along step Fits s₀ calls := by
  have hinv : ∀ (s : Sampling F B) call s', s.Inv → s.Fits call → step s call = some s' → s'.Inv :=
    fun s call s' hs hfits h => hs.step hfits h
  have hoverflow : Along step NoOverflow s₀ calls ↔ Along step Fits s₀ calls :=
    along_congr_of_along hinv (fun s call hs => hs.noOverflow_iff call) hfresh.inv
  constructor
  · intro h
    exact hoverflow.mp h.1
  · intro h
    refine ⟨hoverflow.mpr h, fun ys hys s hrun => ?_⟩
    exact (run_invariant_along hinv hfresh.inv (along_initial hys h) hrun).agrees

/-- A run of samples takes them all. -/
theorem run_samples {s : Sampling F B} (h : s.Inv) (x : Sample F) {n : ℕ}
    (hlt : (s.taken.length : ℤ) + n < 2 ^ 31) :
    ∃ t, run step s (List.replicate n (.sample x)) = some t ∧ t.Inv ∧
      t.taken.length = s.taken.length + n := by
  induction n generalizing s with
  | zero => exact ⟨s, rfl, h, rfl⟩
  | succ n ih =>
    have hfits : s.Fits (.sample x) := by
      show (s.taken.length : ℤ) + 1 < 2 ^ 31
      omega
    obtain ⟨t, ht, hinv, hlength⟩ := ih (h.step hfits rfl) (by
      show ((s.taken.length + 1 : ℕ) : ℤ) + n < 2 ^ 31
      omega)
    refine ⟨t, ht, hinv, hlength.trans ?_⟩
    show s.taken.length + 1 + n = _
    omega

/-- The sample after the last that fits wraps the counter, and the collector
still counts it. -/
theorem run_samples_wraps {s : Sampling F B} (h : s.Inv) (x : Sample F) {n : ℕ}
    (hn : (s.taken.length : ℤ) + n = 2 ^ 31 - 1) :
    ∃ t items, run step s (List.replicate (n + 1) (.sample x)) = some t ∧
      t.profiler.sampleCounter = -2 ^ 31 ∧ t.profiler.data.tryIter Io.ok = .ok items ∧
      (items.map Entry.count).sum = 2 ^ 31 := by
  obtain ⟨u, hu, hinv, hlength⟩ := run_samples h x (n := n) (by omega)
  have hcast : (u.taken.length : ℤ) = 2 ^ 31 - 1 := by
    rw [hlength]
    push_cast
    exact hn
  obtain ⟨es, hes⟩ := hinv.counts
  -- the collector still counts; only the counter has wrapped
  obtain ⟨items, hitems, _⟩ := hes.sample (by omega) x
  refine ⟨⟨u.profiler.sample Io.ok x.frames, u.action, x :: u.taken⟩, items, ?_, ?_,
    hitems.holds.tryIter rfl, ?_⟩
  · rw [List.replicate_succ', run_append, hu]
    rfl
  · show wrap 32 (u.profiler.sampleCounter + 1) = -2 ^ 31
    rw [hinv.counter, hcast]
    decide
  · rw [hitems.sum, List.length_cons]
    push_cast
    omega

end Sampling

end Pprof

/-! ### A stack that is sampled for weeks -/

namespace Pprof.Given

/-- A sample of a stack of one function. -/
def oneFunction : Sample ℕ := ⟨.new [0x4028B0] threadName 0x7FFFF7D8A740 0, 0⟩

end Pprof.Given

namespace Pprof.Sampling

open Given

theorem counts_iff_restarted :
    ∃ s₀ : Sampling ℕ Item, s₀.Fresh ∧
      s₀.CountsSamples [.start true, .sample oneFunction, .clear, .sample oneFunction,
        .stop true, .sample oneFunction] := by
  obtain ⟨p, hp⟩ : ∃ p : Profiler ℕ Item, Profiler.new true = .ok p := ⟨_, rfl⟩
  obtain rfl := Except.ok.inj hp
  refine ⟨⟨_, .ignore, []⟩, ⟨rfl, rfl⟩, (counts_iff ⟨rfl, rfl⟩ _).mpr ?_⟩
  decide

/-- After 2^31 samples the counter is negative. -/
theorem not_countsSamples :
    ∃ s₀ : Sampling ℕ Item, s₀.Fresh ∧
      (∃ t items, run step s₀ (List.replicate 2147483648 (.sample oneFunction)) = some t ∧
        t.profiler.sampleCounter = -2 ^ 31 ∧ t.profiler.data.tryIter Io.ok = .ok items ∧
        (items.map Entry.count).sum = 2 ^ 31) ∧
      ¬ s₀.CountsSamples (List.replicate 2147483648 (.sample oneFunction)) := by
  obtain ⟨p, hp⟩ : ∃ p : Profiler ℕ Item, Profiler.new true = .ok p := ⟨_, rfl⟩
  have hfresh : Fresh (⟨p, .ignore, []⟩ : Sampling ℕ Item) := ⟨hp, rfl⟩
  have hwraps := run_samples_wraps hfresh.inv oneFunction (n := 2147483647) (by norm_num)
  refine ⟨_, hfresh, hwraps, fun hcounts => ?_⟩
  obtain ⟨t, items, hrun, hcounter, hitems, hsum⟩ := hwraps
  obtain ⟨items', hitems', hagrees⟩ := hcounts.2 _ (List.prefix_refl _) t hrun
  obtain rfl := Except.ok.inj (hitems.symm.trans hitems')
  rw [hcounter, hsum] at hagrees
  omega

end Pprof.Sampling
