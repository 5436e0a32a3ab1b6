/-
A running session whose file operations fail.

The methods of the profiler run one at a time under its lock, so a session is
a sequence of samples and report calls.

Here the writes of the overflow file may fail, after any part of their bytes.
`flush_buffer` counts the flush before it writes, so from a failed write on the
file is shorter than reading it back needs (`Short`), and nothing that follows
makes up for it: the report call that would clear the collector reads first.

* `synced_or_short` — after any operations the file is `Synced` if no write
  failed, and `Short` if one did;
* `recovers_iff` — the next report calls succeed exactly in the first case;
* `atomicOnError_iff` — when a failing report call loses nothing.
-/
import Pprof.Report

open ByteFile Transition

namespace Pprof.Session

/-- What happens in a session: a sample, whose write may stop short, and a
report call. -/
inductive Op (F : Type*) where
  | sample (write : Room) (frames : UnresolvedFrames F)
  | report (rb : ReportBuilder) (perfmap : ℕ → ℕ → ℕ → Option Symbol) (clear : Bool)

variable {F B : Type*} [Frame F] [DefaultHasher] [Demangle] [Target]
  [Layout (Entry (UnresolvedFrames F)) B]

def step (p : Profiler F B) : Op F → Option (Profiler F B)
  | .sample write frames => some (p.sample (Io.writing write) frames)
  | .report rb perfmap clear => (rb.buildAndClear Io.ok perfmap clear (.ok p)).2.toOption

/-- The operation writes the buffer out, and the write fails. -/
def writeFails (p : Profiler F B) : Op F → Bool
  | .sample write frames => p.data.writeFails (Io.writing write) frames 1
  | .report _ _ _ => false

/-- No write of the operation can fail. -/
def Op.Succeeds : Op F → Prop
  | .sample write _ => write = .unlimited
  | .report _ _ _ => True

/-- If no file operation fails from now on, the next `build_and_clear(true)`
returns `Ok`, and so do all later ones. -/
def Recovers (p : Profiler F B) : Prop :=
  ∀ (ops : List (Op F)) p', (∀ op ∈ ops, op.Succeeds) → run step p ops = some p' →
    ∀ (rb : ReportBuilder) perfmap, ∃ r, (rb.buildAndClear Io.ok perfmap true (.ok p')).1 = .ok r

/-- The session is running, and the overflow file is as long as reading it back
needs. -/
def Synced (p : Profiler F B) : Prop :=
  p.running = true ∧ p.data.tempArray.file.AtEnd ∧
    p.data.tempArray.needed = p.data.tempArray.file.contents.length

/-- The session is running, and the overflow file is too short to be read. -/
def Short (p : Profiler F B) : Prop :=
  p.running = true ∧ p.data.tempArray.file.AtEnd ∧
    p.data.tempArray.file.contents.length < p.data.tempArray.needed

omit [Frame F] [DefaultHasher] [Demangle] in
theorem synced_of_new {p : Profiler F B} (hrun : p.running = true)
    (hnew : Collector.new true = .ok p.data) : Synced p := by
  have hdata : p.data = _ := (Except.ok.inj hnew).symm
  refine ⟨hrun, ?_, ?_⟩
  · rw [hdata]
    rfl
  · rw [hdata]
    simp [TempFdArray.needed, File.new]

omit [Frame F] [DefaultHasher] [Demangle] in
/-- In a synced session every report call reads all entries. -/
theorem Synced.tryIter {p : Profiler F B} (h : Synced p) : ∃ es, p.data.tryIter Io.ok = .ok es :=
  ⟨_, Collector.tryIter_eq_ok.mpr ⟨rfl, h.2.2.le, rfl⟩⟩

omit [Frame F] [DefaultHasher] [Demangle] in
/-- Clearing a running session succeeds and leaves it synced. -/
theorem clear_synced {p : Profiler F B} (hrun : p.running = true) :
    (p.clear Io.ok).1 = .ok () ∧ Synced (p.clear Io.ok).2 := by
  have hio : Io.ok.clearsOk = true := rfl
  obtain ⟨_, hst, _⟩ := p.data.tempArray.clear_stores hio
  obtain ⟨h, _⟩ | ⟨_, _, hclear⟩ | ⟨_, hio, _⟩ := p.clear_cases Io.ok
  · rw [hrun] at h
    cases h
  · rw [hclear]
    exact ⟨rfl, hrun, hst.atEnd, hst.needed⟩
  · cases hio

omit [DefaultHasher] in
/-- A report call that clears succeeds in a synced session, which stays synced. -/
theorem Synced.report {p : Profiler F B} (h : Synced p) (rb : ReportBuilder)
    (perfmap : ℕ → ℕ → ℕ → Option Symbol) (clear : Bool) :
    ∃ r p', rb.buildAndClear Io.ok perfmap clear (.ok p) = (.ok r, .ok p') ∧ Synced p' := by
  obtain ⟨es, hes⟩ := h.tryIter
  obtain ⟨hok, hclear⟩ := clear_synced h.1
  obtain ⟨err, herr, _⟩ | ⟨_, _, ⟨_, hbuild⟩ | ⟨_, _, hbuild⟩ | ⟨_, err, herr, _⟩⟩ :=
    rb.buildAndClear_cases Io.ok perfmap clear p
  · rw [hes] at herr
    cases herr
  · exact ⟨_, p, hbuild, h⟩
  · exact ⟨_, _, hbuild, hclear⟩
  · rw [hok] at herr
    cases herr

omit [DefaultHasher] in
/-- Every report call fails in a short session, and changes nothing. -/
theorem Short.report {p : Profiler F B} (h : Short p) (rb : ReportBuilder)
    (perfmap : ℕ → ℕ → ℕ → Option Symbol) (clear : Bool) :
    ∃ err, rb.buildAndClear Io.ok perfmap clear (.ok p) = (.error err, .ok p) := by
  obtain ⟨err, _, hbuild⟩ | ⟨es, hes, _⟩ := rb.buildAndClear_cases Io.ok perfmap clear p
  · exact ⟨_, hbuild⟩
  · have hlen := (Collector.tryIter_eq_ok.mp hes).2.1
    have hshort := h.2.2
    omega

/-- One operation: the file falls behind with a failed write, and never
catches up. -/
theorem step_synced_or_short {p p' : Profiler F B} {op : Op F} (hstep : step p op = some p') :
    (Synced p → writeFails p op = false → Synced p') ∧
    (Synced p → writeFails p op = true → Short p') ∧ (Short p → Short p') := by
  cases op with
  | sample write frames =>
    obtain rfl := Option.some.inj hstep
    have hlag := fun h : p.data.tempArray.file.AtEnd =>
      Collector.add_lag h (Io.writing write) frames 1
    refine ⟨fun h hw => ?_, fun h hw => ?_, fun h => ?_⟩
    · -- no write: the file and what it needs grow alike
      obtain ⟨hend, hsame, _⟩ := hlag h.2.1
      have hneeded := h.2.2
      have hsame := hsame hw
      refine ⟨h.1, hend, ?_⟩
      rw [Profiler.sample_data]
      omega
    · -- the flush is counted, but the file gets less
      obtain ⟨hend, _, hmore⟩ := hlag h.2.1
      have hneeded := h.2.2
      have hmore := hmore hw
      refine ⟨h.1, hend, ?_⟩
      rw [Profiler.sample_data]
      omega
    · -- behind it stays behind
      obtain ⟨hend, hsame, hmore⟩ := hlag h.2.1
      have hneeded := h.2.2
      refine ⟨h.1, hend, ?_⟩
      rw [Profiler.sample_data]
      cases hw : p.data.writeFails (Io.writing write) frames 1 with
      | false =>
        have hsame := hsame hw
        omega
      | true =>
        have hmore := hmore hw
        omega
  | report rb perfmap clear =>
    have hstep : (rb.buildAndClear Io.ok perfmap clear (.ok p)).2.toOption = some p' := hstep
    refine ⟨fun h _ => ?_, fun _ hw => ?_, fun h => ?_⟩
    · obtain ⟨r, q, hbuild, hq⟩ := h.report rb perfmap clear
      rw [hbuild] at hstep
      exact Option.some.inj hstep ▸ hq
    · cases hw
    · obtain ⟨err, hbuild⟩ := h.report rb perfmap clear
      rw [hbuild] at hstep
      exact Option.some.inj hstep ▸ h

/-- A run keeps the session synced if no write of it fails, and leaves it short
if one does. -/
theorem synced_or_short {ops : List (Op F)} {p₀ p : Profiler F B} (h : Synced p₀ ∨ Short p₀)
    (hrun : run step p₀ ops = some p) :
    (Synced p ∧ Synced p₀ ∧ Along step (fun p op => writeFails p op = false) p₀ ops) ∨
    (Short p ∧ ¬ (Synced p₀ ∧ Along step (fun p op => writeFails p op = false) p₀ ops)) := by
  induction ops generalizing p₀ with
  | nil =>
    rw [run_nil, Option.some_inj] at hrun
    subst hrun
    obtain h | h := h
    · exact .inl ⟨h, h, trivial⟩
    · refine .inr ⟨h, fun hs => ?_⟩
      have hneeded := hs.1.2.2
      have hshort := h.2.2
      omega
  | cons op ops ih =>
    obtain ⟨q, hstep, hrun⟩ := run_cons_eq_some.mp hrun
    obtain ⟨hsynced, hfails, hshort⟩ := step_synced_or_short hstep
    rw [along_cons hstep]
    obtain h | h := h
    · cases hw : writeFails p₀ op with
      | false =>
        -- this operation went well: the rest decides
        obtain ⟨hp, _, halong⟩ | ⟨hp, hnot⟩ := ih (.inl (hsynced h hw)) hrun
        · exact .inl ⟨hp, h, rfl, halong⟩
        · exact .inr ⟨hp, fun hs => hnot ⟨hsynced h hw, hs.2.2⟩⟩
      | true =>
        obtain ⟨hp, hq, _⟩ | ⟨hp, _⟩ := ih (.inr (hfails h hw)) hrun
        · have hneeded := hq.2.2
          have hlt := (hfails h hw).2.2
          omega
        · exact .inr ⟨hp, fun hs => absurd hs.2.1 (by simp)⟩
    · obtain ⟨hp, hq, _⟩ | ⟨hp, _⟩ := ih (.inr (hshort h)) hrun
      · have hneeded := hq.2.2
        have hlt := (hshort h).2.2
        omega
      · refine .inr ⟨hp, fun hs => ?_⟩
        have hneeded := hs.1.2.2
        have hlt := h.2.2
        omega

omit [Demangle] in
theorem Op.Succeeds.not_fails {op : Op F} (h : op.Succeeds) (p : Profiler F B) :
    writeFails p op = false := by
  cases op with
  | sample write frames =>
    have hwrite : write = .unlimited := h
    simp [writeFails, Collector.writeFails, TempFdArray.writeFails, Io.writing, Room.fits, hwrite]
  | report rb perfmap clear => rfl

/-- **A session recovers exactly when no write has failed in it.** -/
theorem recovers_iff {p₀ p : Profiler F B} (hrun : p₀.running = true)
    (hnew : Collector.new true = .ok p₀.data) {ops : List (Op F)}
    (hops : run step p₀ ops = some p) :
    Recovers p ↔ Along step (fun p op => writeFails p op = false) p₀ ops := by
  have hstart := synced_of_new hrun hnew
  -- after a failed write the array is short for ever, and reports fail
  obtain ⟨hp, _, halong⟩ | ⟨hp, hnot⟩ := synced_or_short (.inl hstart) hops
  · refine ⟨fun _ => halong, fun _ ops' p' hsucceeds hops' rb perfmap => ?_⟩
    obtain ⟨hp', _⟩ | ⟨_, hnot⟩ := synced_or_short (.inl hp) hops'
    · obtain ⟨r, q, hbuild, _⟩ := hp'.report rb perfmap true
      exact ⟨r, by rw [hbuild]⟩
    · exact absurd ⟨hp, along_of_forall (fun op hop q => (hsucceeds op hop).not_fails q) p⟩ hnot
  · constructor
    · intro hrec
      obtain ⟨r, hr⟩ := hrec [] p (fun op hop => absurd hop List.not_mem_nil) rfl
        ⟨none, .default⟩ fun _ _ _ => none
      obtain ⟨err, hbuild⟩ := hp.report ⟨none, .default⟩ (fun _ _ _ => none) true
      rw [hbuild] at hr
      cases hr
    · exact fun halong => absurd ⟨hstart, halong⟩ hnot

/-! ### A report call that fails

`build_and_clear(true)` clears the counter, the buckets and the indices of the
overflow array before it truncates the file, and does not put them back. -/

/-- If `build_and_clear(true)` fails, what was collected is as it was before the
call, and a later call whose operations succeed returns it. -/
def AtomicOnError (rb : ReportBuilder) (io : Io) (perfmap : ℕ → ℕ → ℕ → Option Symbol)
    (p : Profiler F B) : Prop :=
  ∀ err p', rb.buildAndClear io perfmap true (.ok p) = (.error err, .ok p') →
    p'.data.tryIter Io.ok = p.data.tryIter Io.ok ∧ p'.sampleCounter = p.sampleCounter ∧
    ∀ (rb' : ReportBuilder) perfmap', (rb'.buildAndClear Io.ok perfmap' true (.ok p')).1
      = (rb'.buildAndClear Io.ok perfmap' true (.ok p)).1

/-- Nothing has been collected. -/
def Blank (p : Profiler F B) : Prop := p.sampleCounter = 0 ∧ p.data.Blank

omit [DefaultHasher] in
/-- What a call without failures returns. -/
theorem buildAndClear_fst (rb : ReportBuilder) (perfmap : ℕ → ℕ → ℕ → Option Symbol)
    (p : Profiler F B) :
    (rb.buildAndClear Io.ok perfmap true (.ok p)).1 =
      match p.data.tryIter Io.ok with
      | .error err => .error (.ioError err)
      | .ok es => if p.running then .ok (rb.report perfmap es) else .error .notRunning := by
  obtain ⟨err, herr, h⟩ | ⟨es, hes, ⟨hc, _⟩ | ⟨_, hok, h⟩ | ⟨_, err, herr, h⟩⟩ :=
    rb.buildAndClear_cases Io.ok perfmap true p
  · rw [h, herr]
  · -- the report is asked to clear, so it returns only if the clear gets through
    cases hc
  · obtain ⟨_, hclear⟩ | ⟨hrun, _⟩ | ⟨_, hio, _⟩ := p.clear_cases Io.ok
    · rw [hclear] at hok
      cases hok
    · rw [h, hes]
      exact (if_pos hrun).symm
    · cases hio
  · obtain ⟨hrun, hclear⟩ | ⟨_, _, hclear⟩ | ⟨_, hio, _⟩ := p.clear_cases Io.ok
    · rw [hclear] at herr
      rw [h, hes, ← Except.error.inj herr]
      exact (if_neg (by simp [hrun])).symm
    · rw [hclear] at herr
      cases herr
    · cases hio

omit [DefaultHasher] in
/-- A call that leaves the profiler as it is is atomic. -/
theorem atomicOnError_of_kept {rb : ReportBuilder} {io : Io}
    {perfmap : ℕ → ℕ → ℕ → Option Symbol} {p : Profiler F B}
    (h : (rb.buildAndClear io perfmap true (.ok p)).2 = .ok p) : AtomicOnError rb io perfmap p := by
  intro err p' h'
  rw [h'] at h
  obtain rfl := Except.ok.inj h
  exact ⟨rfl, rfl, fun _ _ => rfl⟩

omit [DefaultHasher] in
/-- **A report call is atomic on error exactly when it cannot reach a failing
clear with something to lose**: it fails to read, or the session is not
running, or the clear succeeds, or nothing was collected. -/
theorem atomicOnError_iff (rb : ReportBuilder) (io : Io) (perfmap : ℕ → ℕ → ℕ → Option Symbol)
    (p : Profiler F B) :
    AtomicOnError rb io perfmap p ↔
      io.readsOk = false ∨ p.data.tempArray.file.contents.length < p.data.tempArray.needed ∨
        p.running = false ∨ io.clearsOk = true ∨ Blank p := by
  have hblank := (p.data.blank_clear io).tryIter
  obtain ⟨err, hread, h⟩ | ⟨es, hes, ⟨hc, _⟩ | ⟨_, hok, h⟩ | ⟨_, err, herr, h⟩⟩ :=
    rb.buildAndClear_cases io perfmap true p
  · -- the call fails to read: nothing is changed
    constructor
    · intro _
      by_contra hne
      obtain ⟨hreads, hlen, _⟩ : io.readsOk = true ∧
          p.data.tempArray.needed ≤ p.data.tempArray.file.contents.length ∧ _ := by
        simpa only [not_or, Bool.not_eq_false, not_lt] using hne
      rw [Collector.tryIter_eq_ok.mpr ⟨hreads, hlen, rfl⟩] at hread
      cases hread
    · intro _
      exact atomicOnError_of_kept (by rw [h])
  · cases hc
  · -- the call succeeds
    constructor
    · intro _
      obtain ⟨hrun, _⟩ | ⟨_, hio, _⟩ | ⟨_, _, hclear⟩ := p.clear_cases io
      · exact .inr (.inr (.inl hrun))
      · exact .inr (.inr (.inr (.inl hio)))
      · rw [hclear] at hok
        cases hok
    · intro _ _ _ h'
      rw [h] at h'
      cases (Prod.mk.inj h').1
  · obtain ⟨hreads, hlen, _⟩ := Collector.tryIter_eq_ok.mp hes
    obtain ⟨hrun, hclear⟩ | ⟨_, _, hclear⟩ | ⟨hrun, hio, hclear⟩ := p.clear_cases io
    · -- the session is not running: nothing is changed
      refine ⟨fun _ => .inr (.inr (.inl hrun)), fun _ => ?_⟩
      exact atomicOnError_of_kept (by rw [h, hclear])
    · rw [hclear] at herr
      cases herr
    · -- the clear fails, with nothing left in memory
      rw [hclear] at h
      constructor
      · intro hatomic
        -- if it was atomic nothing had been there
        obtain ⟨hdata, hcounter, _⟩ := hatomic _ _ h
        have hnone : p.data.tryIter Io.ok = .ok [] := hdata ▸ hblank
        exact .inr (.inr (.inr (.inr ⟨hcounter.symm, (Collector.tryIter_eq_nil.mp hnone).2.2⟩)))
      · intro hcond _ p' h'
        rw [h] at h'
        obtain rfl := Except.ok.inj (Prod.mk.inj h').2
        obtain hc | hc | hc | hc | ⟨hcounter, hb⟩ := hcond
        · rw [hreads] at hc
          cases hc
        · omega
        · rw [hrun] at hc
          cases hc
        · rw [hio] at hc
          cases hc
        · -- nothing was collected, so nothing is lost
          have hdata : (p.data.clear io).2.tryIter Io.ok = p.data.tryIter Io.ok := by
            rw [hblank, hb.tryIter]
          refine ⟨hdata, hcounter.symm, fun rb' perfmap' => ?_⟩
          rw [buildAndClear_fst, buildAndClear_fst]
          show (match (p.data.clear io).2.tryIter Io.ok with
            | .error err => _
            | .ok es => _) = _
          rw [hdata]

end Pprof.Session

/-! ### Runs on given stacks -/

namespace Pprof.Session

open Given

local instance : Target := Target.largeDepth

/-- A running profiler that has just been created. -/
def fresh : Profiler ℕ Item :=
  ((Profiler.new true).toOption.get rfl |>.start true ⟨.sigDfl, []⟩).2.1

/-- Five functions whose stacks fall into one bucket, so that from the fifth
sample on every sample evicts an entry.  The eighth eviction writes the buffer
out, and the disk takes three of the seven entries. -/
def diskFull : List (Op ℕ) :=
  [0x4028B0, 0x4035B0, 0x4047B0, 0x406A50, 0x4076D0, 0x4028B0, 0x4076D0, 0x4028B0, 0x4076D0,
    0x4028B0, 0x4076D0].map (fun address => .sample .unlimited (stack address)) ++
  [.sample (.only 3) (stack 0x4028B0)]

theorem recovers_before_diskFull :
    ∃ p, run step fresh diskFull.dropLast = some p ∧ Recovers p := by
  have hops : run step fresh diskFull.dropLast = some _ := rfl
  exact ⟨_, hops, (recovers_iff rfl rfl hops).mpr (by decide +kernel)⟩

theorem not_recovers_after_diskFull :
    ∃ p, fresh.running = true ∧ Collector.new true = .ok fresh.data ∧
      run step fresh diskFull = some p ∧ ¬ Recovers p := by
  obtain ⟨p, hp⟩ : ∃ p, run step fresh diskFull = some p := ⟨_, rfl⟩
  refine ⟨p, rfl, rfl, hp, ?_⟩
  intro hrec
  obtain ⟨r, hr⟩ := hrec [] p (fun op hop => absurd hop List.not_mem_nil) rfl ⟨none, .default⟩
    fun _ _ _ => none
  have herr : ((run step fresh diskFull).map fun p =>
      ((⟨none, .default⟩ : ReportBuilder).buildAndClear Io.ok (fun _ _ _ => none) true
        (.ok p)).1.isOk) = some false := by decide +kernel
  rw [hp, Option.map_some, hr] at herr
  cases herr

/-- The profiler after one sample. -/
def sampled : Profiler ℕ Item := fresh.sample Io.ok (stack 0x4028B0)

/-- The truncation of the file fails: the sample is gone, and its count too. -/
theorem not_atomicOnError_truncation :
    ¬ AtomicOnError ⟨none, .default⟩ { Io.ok with setLen := false } (fun _ _ _ => none)
      sampled := by
  intro hatomic
  have hfails : ReportBuilder.buildAndClear ⟨none, .default⟩ { Io.ok with setLen := false }
      (fun _ _ _ => none) true (.ok sampled) = (.error (.ioError .os), .ok _) := rfl
  obtain ⟨_, hcounter, _⟩ := hatomic _ _ hfails
  exact absurd hcounter (by decide +kernel)

end Pprof.Session
