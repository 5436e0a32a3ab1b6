/-
Recordings: a profiler that only samples.

A recording is a profiler with the samples it has taken since it was made; one
event is one sample, and its file operations succeed.  Counts are `isize`, so a
recording of 2^63 samples would overflow them: `Fits` says of a step that it
does not get that far.

* `Recorded` — the profiler counts the samples that were taken;
* `Recorded.sample` — a sample adds to the live entry of its class, or makes an
  entry;
* `Recorded.build` — what `build` returns, and which entries it selects.
-/
import Pprof.Agreement

open ByteFile Transition Weight
open scoped List

namespace Pprof

variable [Target]

/-- A profiler, and the samples it has taken. -/
structure Recording (F B : Type*) where
  profiler : Profiler F B
  taken : List (Sample F)

namespace Recording

variable {F B : Type*}

/-- A profiler that has just been made. -/
def Fresh (s : Recording F B) : Prop := Profiler.new true = .ok s.profiler ∧ s.taken = []

/-- There is room for one more sample. -/
def Fits (s : Recording F B) (_ : Sample F) : Prop := (s.taken.length : ℤ) + 1 < 2 ^ 63

variable [Frame F] [DefaultHasher] [PlainLayout (Entry (UnresolvedFrames F)) B]

/-- One sample. -/
def step (s : Recording F B) (x : Sample F) : Option (Recording F B) :=
  some ⟨s.profiler.sample Io.ok x.frames, x :: s.taken⟩

omit [DefaultHasher] in
/-- The entries `es` of the profiler count the samples that were taken. -/
structure Recorded (s : Recording F B) (es : List (Entry (UnresolvedFrames F))) : Prop where
  counts : Counts s.profiler s.taken es
  lt : (s.taken.length : ℤ) < 2 ^ 63

omit [DefaultHasher] in
theorem Fresh.recorded {s : Recording F B} (h : s.Fresh) : s.Recorded [] := by
  obtain ⟨hnew, htaken⟩ := h
  obtain ⟨data, hdata, hp⟩ := Profiler.new_eq_ok hnew
  refine ⟨?_, by rw [htaken]; norm_num⟩
  rw [htaken, hp]
  exact Counts.nil (Collector.holds_of_new hdata)

/-- The entries that the profiler holds. -/
def held (s : Recording F B) : List (Entry (UnresolvedFrames F)) :=
  (s.profiler.data.tryIter Io.ok).toOption.getD []

omit [DefaultHasher] in
theorem Recorded.held {s : Recording F B} {es : List (Entry (UnresolvedFrames F))}
    (h : s.Recorded es) : s.held = es := by
  rw [Recording.held, h.counts.holds.tryIter rfl]
  rfl

/-- A sample adds to the live entry of its class, or makes an entry. -/
theorem Recorded.sample {s : Recording F B} {es : List (Entry (UnresolvedFrames F))}
    (h : s.Recorded es) {x : Sample F} (hfits : s.Fits x) :
    ∃ s' es', step s x = some s' ∧ s'.taken = x :: s.taken ∧ s'.Recorded es' ∧
      (∀ e, s.profiler.data.map.live x.frames = some e → (e.increase 1).count = e.count + 1 ∧
        ∃ rest, es ~ e :: rest ∧ es' ~ e.increase 1 :: rest) ∧
      (s.profiler.data.map.live x.frames = none → es' ~ x.entry :: es) := by
  obtain ⟨es', hes', hhit, hmiss⟩ := h.counts.sample hfits x
  refine ⟨_, es', rfl, rfl, ⟨hes', ?_⟩, hhit, hmiss⟩
  show ((s.taken.length + 1 : ℕ) : ℤ) < 2 ^ 63
  have hlt : (s.taken.length : ℤ) + 1 < 2 ^ 63 := hfits
  omega

/-- The stack that a sample is counted under: that of the live entry of its
class, or its own. -/
def credited (s : Recording F B) (x : Sample F) : UnresolvedFrames F :=
  (s.profiler.data.map.live x.frames).elim x.frames Entry.item

/-- A sample adds one to what is selected with the stack it is counted under. -/
theorem Recorded.sumWhere_sample {s : Recording F B} {es : List (Entry (UnresolvedFrames F))}
    (h : s.Recorded es) {x : Sample F} (hfits : s.Fits x) :
    ∃ s' es', step s x = some s' ∧ s'.taken = x :: s.taken ∧ s'.Recorded es' ∧
      ∀ Q : UnresolvedFrames F → Bool, sumWhere Entry.item Entry.count Q es'
        = sumWhere Entry.item Entry.count Q es + if Q (s.credited x) then 1 else 0 := by
  obtain ⟨s', es', hstep, htaken, hes', hhit, hmiss⟩ := h.sample hfits
  refine ⟨s', es', hstep, htaken, hes', fun Q => ?_⟩
  cases hlive : s.profiler.data.map.live x.frames with
  | none =>
    have hcredited : s.credited x = x.frames := by rw [credited, hlive, Option.elim_none]
    rw [sumWhere_perm (hmiss hlive), sumWhere_cons, hcredited, add_comm]
    rfl
  | some e =>
    -- the entry that is found gets the sample, whatever the sample itself is called
    have hcredited : s.credited x = e.item := by rw [credited, hlive, Option.elim_some]
    obtain ⟨hincrease, rest, hbefore, hafter⟩ := hhit e hlive
    rw [sumWhere_perm hafter, sumWhere_perm hbefore, sumWhere_cons, sumWhere_cons, hcredited,
      Entry.item_increase, hincrease]
    by_cases hQ : Q e.item
    · rw [if_pos hQ, if_pos hQ, if_pos hQ]
      ring
    · rw [if_neg hQ, if_neg hQ, if_neg hQ]
      ring

/-- Every sample is taken. -/
theorem exists_run (s : Recording F B) (xs : List (Sample F)) : ∃ t, run step s xs = some t := by
  induction xs generalizing s with
  | nil => exact ⟨s, rfl⟩
  | cons x xs ih => exact ih _

/-- A history of fewer than 2^63 samples fits. -/
theorem along_fits {xs : List (Sample F)} {s : Recording F B}
    (h : (s.taken.length : ℤ) + xs.length < 2 ^ 63) : Along step Fits s xs := by
  induction xs generalizing s with
  | nil => trivial
  | cons x xs ih =>
    rw [List.length_cons] at h
    refine ⟨?_, ih ?_⟩
    · show (s.taken.length : ℤ) + 1 < 2 ^ 63
      omega
    · show ((s.taken.length + 1 : ℕ) : ℤ) + xs.length < 2 ^ 63
      omega

theorem Fresh.along_fits {s : Recording F B} (h : s.Fresh) {xs : List (Sample F)}
    (hlt : (xs.length : ℤ) < 2 ^ 63) : Along step Fits s xs := by
  refine Recording.along_fits ?_
  rw [h.2, List.length_nil]
  omega

/-- The whole recording counts the samples that were taken. -/
theorem recorded_of_run {s₀ s : Recording F B} (hfresh : s₀.Fresh) {xs : List (Sample F)}
    (hlt : (xs.length : ℤ) < 2 ^ 63) (hrun : run step s₀ xs = some s) : ∃ es, s.Recorded es := by
  have hstep : ∀ (s : Recording F B) x s', (∃ es, s.Recorded es) → s.Fits x →
      step s x = some s' → ∃ es, s'.Recorded es := by
    intro s x s' ⟨es, hes⟩ hx h
    obtain ⟨t, es', ht, _, hes', _⟩ := hes.sample hx
    obtain rfl := Option.some.inj (ht.symm.trans h)
    exact ⟨es', hes'⟩
  exact run_invariant_along hstep ⟨[], hfresh.recorded⟩ (hfresh.along_fits hlt) hrun

variable [Demangle]

omit [DefaultHasher] in
/-- What `build` returns without a post processor.  A property of its keys that
only depends on the entry selects the counts of the entries that have it. -/
theorem Recorded.build {s : Recording F B} {es : List (Entry (UnresolvedFrames F))}
    (h : s.Recorded es) (rb : ReportBuilder) (hnone : rb.framesPostProcessor = none)
    (perfmap : ℕ → ℕ → ℕ → Option Symbol) :
    (rb.build Io.ok perfmap (.ok s.profiler)).1 = .ok (rb.report perfmap es) ∧
    ∀ (P : Frames → Bool) (Q : UnresolvedFrames F → Bool),
      (∀ f g : Frames, f == g → P f = P g) →
      (∀ e ∈ es, ∀ i, P (Frames.ofUnresolved (perfmap i) e.item) = Q e.item) →
      sumWhere Prod.fst Prod.snd P (rb.report perfmap es).data
        = sumWhere Entry.item Entry.count Q es := by
  have hread : s.profiler.data.tryIter Io.ok = .ok es := h.counts.holds.tryIter rfl
  refine ⟨?_, fun P Q hP hQ => ?_⟩
  · rw [ReportBuilder.build, ReportBuilder.buildAndClear]
    simp only [hread]
    rfl
  · refine sumWhere_collect (h.counts.exact h.lt) _ hP fun e he i => ?_
    rw [ReportBuilder.framesKey_eq hnone, hQ e he]

end Recording

end Pprof

namespace Pprof.Given

/-- A profiler that has just been made. -/
def newRecording : Recording ℕ Item := ⟨(Profiler.new true).toOption.get rfl, []⟩

theorem newRecording_fresh : newRecording.Fresh := ⟨rfl, rfl⟩

end Pprof.Given
