/-
Samples and the names of their threads.

A thread is told by its id, so samples of a thread that was renamed, or of two
threads that had one id after the other, are counted together; and the name
that is reported is the one that was recorded with the entry.  `named_iff` says
when every report of a recording has each sample under the name it was taken
with: when a sample that finds its class in the bucket finds it under its own
name.
-/
import Pprof.Recording

open ByteFile Transition Weight
open scoped List

namespace Pprof

variable {F B : Type*}

/-- The name of the thread, as it is reported. -/
def UnresolvedFrames.name (u : UnresolvedFrames F) : String :=
  fromUtf8Lossy (u.threadName.take u.threadNameLength)

variable [Target] [Frame F] [Demangle] [PlainLayout (Entry (UnresolvedFrames F)) B]

namespace Recording

/-- In the reports of `build` without a post processor, the counts under each
thread name are the number of samples that were taken with it. -/
def Named (s : Recording F B) : Prop :=
  ∀ rb : ReportBuilder, rb.framesPostProcessor = none → ∀ perfmap, ∃ report,
    (rb.build Io.ok perfmap (.ok s.profiler)).1 = .ok report ∧
    ∀ name, sumWhere Prod.fst Prod.snd (fun f => f.threadName == name) report.data
      = (s.taken.filter fun x => x.frames.name == name).length

/-- A report is asked for the entries of the name. -/
theorem Recorded.named_entries {s : Recording F B} {es : List (Entry (UnresolvedFrames F))}
    (h : s.Recorded es) :
    s.Named ↔ ∀ name, sumWhere Entry.item Entry.count (fun u => u.name == name) es
      = (s.taken.filter fun x => x.frames.name == name).length := by
  -- the name is part of what keys are compared by
  have hcongr : ∀ name : String, ∀ f g : Frames, f == g →
      (f.threadName == name) = (g.threadName == name) := by
    intro name f g hfg
    have hname : f.threadName = g.threadName :=
      congrArg (fun k => k.2.1) ((Frames.beq_iff f g).mp hfg)
    rw [hname]
  constructor
  · intro hnamed name
    obtain ⟨report, hreport, hsum⟩ := hnamed ⟨none, ReportTiming.default⟩ rfl fun _ _ _ => none
    obtain ⟨hbuild, hselect⟩ := h.build ⟨none, ReportTiming.default⟩ rfl fun _ _ _ => none
    obtain rfl := Except.ok.inj (hbuild.symm.trans hreport)
    rw [← hsum name]
    exact (hselect _ (fun u => u.name == name) (hcongr name) fun _ _ _ => rfl).symm
  · intro hes rb hnone perfmap
    obtain ⟨hbuild, hselect⟩ := h.build rb hnone perfmap
    refine ⟨_, hbuild, fun name => ?_⟩
    rw [← hes name]
    exact hselect _ (fun u => u.name == name) (hcongr name) fun _ _ _ => rfl

variable [DefaultHasher]

/-- The sample is counted under the name of its own thread. -/
def KeepsName (s : Recording F B) (x : Sample F) : Prop := (s.credited x).name = x.frames.name

instance (s : Recording F B) (x : Sample F) : Decidable (s.KeepsName x) :=
  inferInstanceAs (Decidable ((s.credited x).name = x.frames.name))

/-- One sample keeps the names right exactly if it is counted under its own. -/
theorem named_step (s : Recording F B) (x : Sample F) (h : ∃ es, s.Recorded es)
    (hfits : s.Fits x) :
    ∃ s', step s x = some s' ∧ (∃ es, s'.Recorded es) ∧
      (s.Named → (s'.Named ↔ s.KeepsName x)) := by
  obtain ⟨es, hes⟩ := h
  obtain ⟨s', es', hstep, htaken, hes', hsum⟩ := hes.sumWhere_sample hfits
  refine ⟨s', hstep, ⟨es', hes'⟩, fun hnamed => ?_⟩
  have hbefore := hes.named_entries.mp hnamed
  -- the step adds one sample, of its own name
  have htaken' : ∀ name, ((s'.taken.filter fun y => y.frames.name == name).length : ℤ)
      = (s.taken.filter fun y => y.frames.name == name).length
        + if x.frames.name == name then 1 else 0 := by
    intro name
    rw [htaken, List.filter_cons]
    by_cases hname : x.frames.name == name
    · rw [if_pos hname, if_pos hname, List.length_cons]
      omega
    · rw [if_neg hname, if_neg hname]
      omega
  rw [hes'.named_entries]
  constructor
  · intro hafter
    -- the reports credit the sample to some name; only its own keeps them right
    have hname := hafter x.frames.name
    rw [hsum, hbefore, htaken', if_pos BEq.rfl] at hname
    by_contra hcredited
    rw [if_neg fun h => hcredited (eq_of_beq h)] at hname
    omega
  · intro hkeeps name
    rw [hsum, hbefore, htaken', hkeeps]

/-- **Thread names.**  The reports of a recording have every sample under the
name of the thread it was taken with, after each sample, if and only if no
sample is counted under another name. -/
theorem named_iff {s₀ : Recording F B} (hfresh : s₀.Fresh) {xs : List (Sample F)}
    (hlt : (xs.length : ℤ) < 2 ^ 63) :
    (∀ ys, ys <+: xs → ∀ s, run step s₀ ys = some s → s.Named) ↔ Along step KeepsName s₀ xs := by
  refine holds_throughout_iff named_step ⟨[], hfresh.recorded⟩ ?_ (hfresh.along_fits hlt)
  rw [hfresh.recorded.named_entries, hfresh.2]
  exact fun _ => rfl

end Recording

end Pprof

/-! ### A thread that is renamed -/

namespace Pprof.Given

/-- The name of the thread `worker`. -/
def workerName : ThreadName := ⟨[0x77, 0x6F, 0x72, 0x6B, 0x65, 0x72], by decide⟩

/-- A sample in one function by the thread of this id. -/
def sampleBy (name : ThreadName) (threadId : UInt64) : Sample ℕ :=
  ⟨.new [0x4028B0] name threadId 0, 1⟩

end Pprof.Given

namespace Pprof.Recording

open Given

/-- Two threads with different ids. -/
theorem named_two_threads :
    ∃ s : Recording ℕ Item, s.Named ∧ s.taken = [sampleBy workerName 2, sampleBy threadName 1] := by
  have hlt : (([sampleBy threadName 1, sampleBy workerName 2].length : ℕ) : ℤ) < 2 ^ 63 := by
    decide
  have hnamed := (named_iff newRecording_fresh hlt).mpr (by decide +kernel)
  exact ⟨_, hnamed _ List.prefix_rfl _ rfl, rfl⟩

/-- What the report of a recording counts under a name. -/
def reportedAs (name : String) (s : Recording ℕ Item) : Option ℤ :=
  (builder.build Io.ok (fun _ _ _ => none) (.ok s.profiler)).1.toOption.map fun report =>
    sumWhere Prod.fst Prod.snd (fun f => f.threadName == name) report.data

/-- One thread that is renamed between two samples of a function: both samples
are reported under its first name. -/
theorem not_named_renamed :
    ∃ s : Recording ℕ Item, newRecording.Fresh ∧
      run step newRecording [sampleBy threadName 1, sampleBy workerName 1] = some s ∧
      reportedAs "main" s = some 2 ∧ reportedAs "worker" s = some 0 ∧
      (s.taken.filter fun x => x.frames.name == "worker").length = 1 ∧ ¬ s.Named := by
  have hboth : (run step newRecording [sampleBy threadName 1, sampleBy workerName 1]).map
      (fun s => (reportedAs "main" s, reportedAs "worker" s)) = some (some 2, some 0) := by
    decide +kernel
  obtain ⟨s, hrun⟩ :
      ∃ s, run step newRecording [sampleBy threadName 1, sampleBy workerName 1] = some s := ⟨_, rfl⟩
  have htaken : s.taken = [sampleBy workerName 1, sampleBy threadName 1] := by
    obtain rfl := Option.some.inj hrun
    rfl
  rw [hrun] at hboth
  obtain ⟨hmain, hworker⟩ := Prod.mk.inj (Option.some.inj hboth)
  have hone : (s.taken.filter fun x => x.frames.name == "worker").length = 1 := by
    rw [htaken]
    decide +kernel
  refine ⟨s, newRecording_fresh, hrun, hmain, hworker, hone, fun hnamed => ?_⟩
  obtain ⟨report, hbuild, hsum⟩ := hnamed builder rfl fun _ _ _ => none
  have hreported := hsum "worker"
  rw [hone] at hreported
  rw [reportedAs, hbuild] at hworker
  have hzero := hreported.symm.trans (Option.some.inj hworker)
  exact absurd hzero (by decide)

end Pprof.Recording
