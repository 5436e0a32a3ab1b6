/-
Invocations of the handler that are late.

The handler may be entered in one session and obtain the lock when a `stop` has
ended it, or even when the next session is running.

* `Entered` — what is known of an invocation that was entered and not yet
  served: it belongs to the current session exactly when no `stop` has succeeded
  since;
* `current_iff` — a sample is taken in the session of its invocation exactly
  when the invocation is not late;
* `Fed`, `sinceMade` — the samples a collector was made from, whatever the file
  operations did, and the samples that a run took since it was created;
* `Made.step`, `Own.step` — they are the same, and of the current session;
* `samples_in_session_iff` — in the runs where no late invocation samples, and
  only there, every sample is taken while the profiler is running, in the
  session its invocation was entered in; so the collector is fed, and reports
  count, samples of the current session only.
-/
import Pprof.Ledger

open ByteFile Transition Weight

namespace Pprof.State

variable {F B : Type*} [Target]

/-- Where an invocation stands to the sessions: one that is late belongs to an
earlier session, another to the current one, which is running. -/
structure Known (s : State F B) (v : Invocation) : Prop where
  le : v.session ≤ s.session
  current : v.late = false → s.running = true ∧ v.session = s.session
  late : v.late = true → s.running = true → v.session < s.session

/-- Every invocation on its way is known. -/
structure Entered (s : State F B) : Prop where
  entered : ∀ v ∈ s.entered, Known s v
  handling : ∀ v, s.holder = .handling v → Known s v

theorem Init.allEntered {s : State F B} (h : Init s) : Entered s where
  entered v hv := by simp [h.entered] at hv
  handling v hv := by simp [h.holder] at hv

theorem Known.congr {s s' : State F B} {v : Invocation} (h : Known s v)
    (hrun : s'.running = s.running) (hsession : s'.session = s.session) : Known s' v where
  le := hsession ▸ h.le
  current := by
    rw [hrun, hsession]
    exact h.current
  late := by
    rw [hrun, hsession]
    exact h.late

theorem Entered.congr {s s' : State F B} (hs : Entered s) (hrun : s'.running = s.running)
    (hsession : s'.session = s.session) (hentered : ∀ v ∈ s'.entered, v ∈ s.entered)
    (hholder : ∀ v, s'.holder = .handling v → s.holder = .handling v ∨ v ∈ s.entered) :
    Entered s' where
  entered v hv := (hs.entered v (hentered v hv)).congr hrun hsession
  handling v hv := by
    obtain h | h := hholder v hv
    · exact (hs.handling v h).congr hrun hsession
    · exact (hs.entered v h).congr hrun hsession

variable [Frame F]

/-- If the step samples, the profiler is running, in the session in which the
invocation was entered. -/
def Current (s : State F B) : Event F → Prop
  | .handle _ i => ∀ v p, s.holder = .handling v → s.profiler = .ok p →
      (p.recorded i).isSome → s.running = true ∧ v.session = s.session
  | _ => True

/-- The step is not a late invocation that goes on to sample. -/
def onTime (s : State F B) : Event F → Bool
  | .handle _ i =>
    match s.holder, s.profiler with
    | .handling v, .ok p => !v.late || i.addr.any p.isBlocklisted
    | _, _ => true
  | _ => true

theorem isSome_recorded (p : Profiler F B) (i : Interrupt F) :
    (p.recorded i).isSome = !(i.addr.any p.isBlocklisted) := by
  rw [Profiler.recorded]
  split
  · next h => rw [h]; rfl
  · next h => rw [Bool.eq_false_of_not_eq_true h]; rfl

theorem current_iff {s : State F B} (hs : Entered s) (e : Event F) :
    Current s e ↔ onTime s e = true := by
  cases e with
  | handle io i =>
    rw [Current, onTime]
    split
    · next v p hholder hp =>
      have hv := hs.handling v hholder
      constructor
      · intro h
        cases hlate : v.late with
        | false => rfl
        | true =>
          -- a sample would be of the current session, but `v` belongs to an earlier one
          by_contra hblocked
          have hsome : (p.recorded i).isSome := by
            rw [isSome_recorded]
            simpa using hblocked
          obtain ⟨hrun, hsession⟩ := h v p hholder hp hsome
          have hlt := hv.late hlate hrun
          omega
      · intro h v' p' hholder' hp' hsome
        obtain rfl := Holder.handling.inj (hholder.symm.trans hholder')
        obtain rfl := Except.ok.inj (hp.symm.trans hp')
        rw [isSome_recorded, Bool.not_eq_true'] at hsome
        refine hv.current ?_
        simpa [hsome] using h
    · next hne =>
      exact ⟨fun _ => rfl, fun _ v p hholder hp => absurd hp (hne v p hholder)⟩
  | _ => exact ⟨fun _ => rfl, fun _ => trivial⟩

variable [DefaultHasher] [PlainLayout (Entry (UnresolvedFrames F)) B] [Demangle]

/-- Every step keeps the invocations known. -/
theorem Entered.step {s s' : State F B} {e : Event F} (hs : Entered s) (hsafe : Safe s)
    (h : s.step e = some s') : Entered s' := by
  cases Step.of_step h with
  | moved h' he hquiet hold =>
    refine hs.congr rfl rfl (fun v hv => hv) ?_
    rintro v rfl
    cases hquiet
  | refused hholder hp hcause =>
    exact hs.congr (running_congr hp rfl rfl) rfl (fun v hv => hv) (fun v hv => by cases hv)
  | @started b p hholder hp hrun =>
    -- the number of the session grows, and all who are under way are late
    refine ⟨fun v hv => ?_, fun v hv => by cases hv⟩
    have hle := (hs.entered v hv).le
    refine ⟨?_, fun hlate => ?_, fun _ _ => ?_⟩
    · show v.session ≤ s.session + 1
      omega
    · -- no session was running, so every invocation is late
      have hrunning := ((hs.entered v hv).current hlate).1
      rw [running_ok hp, hrun] at hrunning
      cases hrunning
    · show v.session < s.session + 1
      omega
  | stopFailed hholder hp hrun hcause =>
    exact hs.congr (running_congr hp rfl rfl) rfl (fun v hv => hv) (fun v hv => by cases hv)
  | stopped hholder hp hrun hdata =>
    refine ⟨fun v hv => ?_, fun v hv => by cases hv⟩
    -- now everyone who is under way is late
    obtain ⟨w, hw, rfl⟩ := List.mem_map.mp hv
    refine ⟨(hs.entered w hw).le, fun hlate => ?_, fun _ hfalse => ?_⟩
    · cases hlate
    · cases hfalse
  | delivered hpending =>
    rw [deliver]
    split
    · next ha =>
      -- where the handler is installed a session runs, and the invocation is of it
      have hrun := hsafe.running_of_handler ha
      refine ⟨fun v hv => ?_, fun v hv => (hs.handling v hv).congr rfl rfl⟩
      obtain rfl | hv := List.mem_cons.mp hv
      · exact ⟨le_rfl, fun _ => ⟨hrun, rfl⟩, fun hlate => by cases hlate⟩
      · exact (hs.entered v hv).congr rfl rfl
    · exact hs.congr rfl rfl (fun v hv => hv) (fun v hv => .inl hv)
    · exact hs.congr rfl rfl (fun v hv => hv) (fun v hv => .inl hv)
  | @entersLock i v hv hholder =>
    refine hs.congr rfl rfl (fun w hw => List.mem_of_mem_eraseIdx hw) (fun w hw => .inr ?_)
    obtain rfl := Holder.handling.inj hw
    exact List.mem_of_getElem? hv
  | givesUp hv hholder =>
    exact hs.congr rfl rfl (fun w hw => List.mem_of_mem_eraseIdx hw) (fun w hw => .inl hw)
  | @handled v p io interrupt hholder hp =>
    exact hs.congr (running_congr hp rfl (perfSignalHandler_running p io interrupt)) rfl
      (fun v hv => hv) (fun v hv => by cases hv)
  | @reported rb io perfmap clear hholder =>
    exact hs.congr (running_report rb io perfmap clear rfl) rfl (fun v hv => hv)
      (fun v hv => by cases hv)
  | _ => exact hs.congr rfl rfl (fun v hv => hv) (fun v hv => by first | cases hv | exact .inl hv)

/-! ### What the collector was made from -/

omit [Demangle] in
/-- `c` was made from the samples `xs` by calls of `add` and `clear`, which may
have failed. -/
inductive Fed : Collector (UnresolvedFrames F) B → List (Sample F) → Prop
  | new {tempfile : Bool} {c : Collector (UnresolvedFrames F) B}
      (h : Collector.new tempfile = .ok c) : Fed c []
  | add {c : Collector (UnresolvedFrames F) B} {xs : List (Sample F)} (io : Io) (x : Sample F)
      (h : Fed c xs) : Fed (c.add io x.frames 1).2 (x :: xs)
  | clear {c : Collector (UnresolvedFrames F) B} {xs : List (Sample F)} (io : Io)
      (h : Fed c xs) : Fed (c.clear io).2 xs

omit [DefaultHasher] [PlainLayout (Entry (UnresolvedFrames F)) B] [Demangle] in
/-- The samples that a step takes, each with the session in which its invocation
was entered. -/
def taken (s : State F B) : Event F → List (Sample F)
  | .handle _ interrupt =>
    match s.holder, s.profiler with
    | .handling v, .ok p => (p.recorded interrupt).toList.map fun frames => ⟨frames, v.session⟩
    | _, _ => []
  | _ => []

omit [DefaultHasher] [PlainLayout (Entry (UnresolvedFrames F)) B] [Demangle] in
/-- The samples that were taken since the collector was created, with those of a
step: a `stop` that succeeds creates it anew. -/
def feeds (s : State F B) (e : Event F) (xs : List (Sample F)) : List (Sample F) :=
  if Ends s e then [] else taken s e ++ xs

/-- The samples that a run took since the collector was created. -/
def sinceMade (s₀ : State F B) (es : List (Event F)) : List (Sample F) :=
  carry step feeds s₀ [] es

omit [DefaultHasher] [PlainLayout (Entry (UnresolvedFrames F)) B] [Demangle] in
theorem feeds_moves {s : State F B} {e : Event F} (he : Event.moves e) (xs : List (Sample F)) :
    feeds s e xs = xs := by
  cases e with
  | dropStop sigOk tempfile => cases he
  | handle io interrupt => cases he
  | _ => rfl

omit [DefaultHasher] [PlainLayout (Entry (UnresolvedFrames F)) B] [Demangle] in
theorem feeds_stop {s : State F B} {sigOk tempfile : Bool} (xs : List (Sample F)) :
    feeds s (.dropStop sigOk tempfile) xs
      = if s.running = true ∧ sigOk = true ∧ tempfile = true then [] else xs := by
  simp only [feeds, Ends, taken, List.nil_append, Bool.and_eq_true, and_assoc]

omit [DefaultHasher] [PlainLayout (Entry (UnresolvedFrames F)) B] [Demangle] in
theorem feeds_handle {s : State F B} {v : Invocation} {p : Profiler F B}
    (hholder : s.holder = .handling v) (hp : s.profiler = .ok p) (io : Io) (i : Interrupt F)
    (xs : List (Sample F)) :
    feeds s (.handle io i) xs
      = (p.recorded i).toList.map (fun frames => ⟨frames, v.session⟩) ++ xs := by
  simp only [feeds, Ends, taken, hholder, hp]
  rfl

omit [DefaultHasher] [PlainLayout (Entry (UnresolvedFrames F)) B] [Demangle] in
theorem feeds_handleNone {s : State F B} {v : Invocation} {err : Error}
    (hholder : s.holder = .handling v) (hp : s.profiler = .error err) (io : Io) (i : Interrupt F)
    (xs : List (Sample F)) : feeds s (.handle io i) xs = xs := by
  simp only [feeds, Ends, taken, hholder, hp]
  rfl

omit [Demangle] in
/-- The collector was made from `xs`, and the window are the last of them. -/
structure Made (s : State F B) (xs : List (Sample F)) : Prop where
  fed : ∀ p, s.profiler = .ok p → Fed p.data xs
  window : s.window <+: xs

omit [Demangle] in
theorem Init.made {s : State F B} (h : Init s) : Made s [] where
  fed p hp := by
    obtain ⟨tempfile, hnew⟩ := h.profiler
    obtain ⟨data, hdata, rfl⟩ := Profiler.new_eq_ok (hnew.symm.trans hp)
    exact .new hdata
  window := by rw [h.window]

omit [Demangle] in
/-- A step that leaves the collector and the window alone. -/
theorem Made.same {s s' : State F B} {xs : List (Sample F)} (hs : Made s xs)
    {p p' : Profiler F B} (hp : s.profiler = .ok p) (hp' : s'.profiler = .ok p')
    (hdata : p'.data = p.data) (hwindow : s'.window = s.window) : Made s' xs where
  fed q hq := by
    obtain rfl := Except.ok.inj (hp'.symm.trans hq)
    exact hdata ▸ hs.fed p hp
  window := hwindow ▸ hs.window

/-- **Every step keeps the collector made from what was taken since it was
created**, whatever its file operations do. -/
theorem Made.step {s s' : State F B} {e : Event F} {xs : List (Sample F)} (hs : Made s xs)
    (h : s.step e = some s') : Made s' (feeds s e xs) := by
  cases Step.of_step h with
  | moved h' he =>
    rw [feeds_moves he]
    exact ⟨hs.fed, hs.window⟩
  | refused hholder hp => exact hs.same hp rfl rfl rfl
  | started hholder hp => exact hs.same hp rfl rfl rfl
  | stopRefused hholder hrun =>
    rw [feeds_stop, if_neg (by simp [hrun])]
    exact ⟨hs.fed, hs.window⟩
  | @stopFailed g p counter action sigOk tempfile hholder hp hrun hcause =>
    have hnot : ¬ (s.running = true ∧ sigOk = true ∧ tempfile = true) := by
      rintro ⟨_, rfl, rfl⟩
      obtain ⟨hsig, _⟩ | ⟨_, htemp, _⟩ := hcause
      · cases hsig
      · cases htemp
    rw [feeds_stop, if_neg hnot]
    exact hs.same hp rfl rfl rfl
  | stopped hholder hp hrun hdata =>
    -- the new collector is made from nothing
    rw [feeds_stop, if_pos ⟨(running_ok hp).trans hrun, rfl, rfl⟩]
    exact ⟨fun p' hp' => Except.ok.inj hp' ▸ .new hdata, List.prefix_rfl⟩
  | delivered =>
    refine ⟨?_, ?_⟩
    · rw [deliver_profiler]
      exact hs.fed
    · rw [deliver_window]
      exact hs.window
  | @handled v p io interrupt hholder hp =>
    -- the sample that is added is the one that is taken
    rw [feeds_handle hholder hp]
    refine ⟨fun p' hp' => ?_, List.prefix_append_right_inj _ |>.mpr hs.window⟩
    obtain rfl := Except.ok.inj hp'
    rw [Profiler.perfSignalHandler]
    cases p.recorded interrupt with
    | none => exact hs.fed p hp
    | some frames => exact .add io ⟨frames, v.session⟩ (hs.fed p hp)
  | @handledNone v err io interrupt hholder hp =>
    rw [feeds_handleNone hholder hp]
    exact ⟨hs.fed, hs.window⟩
  | @reported rb io perfmap clear hholder =>
    refine ⟨fun p' hp' => ?_, ?_⟩
    · show Fed p'.data xs
      cases hp : s.profiler with
      | error err =>
        rw [hp] at hp'
        cases hp'
      | ok p =>
        -- a report leaves the collector or clears it, and its window may become empty
        obtain ⟨q, hq, hcase⟩ := rb.buildAndClear_snd io perfmap clear p
        rw [hp, hq] at hp'
        obtain rfl := Except.ok.inj hp'
        obtain rfl | rfl := hcase
        · exact hs.fed q hp
        · exact .clear io (hs.fed p hp)
    · show (if _ then [] else s.window) <+: xs
      split
      · exact List.nil_prefix
      · exact hs.window
  | _ => exact ⟨hs.fed, hs.window⟩

omit [DefaultHasher] [PlainLayout (Entry (UnresolvedFrames F)) B] [Demangle] in
/-- All of `xs` is of the current session, and there is none of it if none is
running. -/
structure Own (s : State F B) (xs : List (Sample F)) : Prop where
  session : ∀ x ∈ xs, x.session = s.session
  stopped : s.running = false → xs = []

omit [Frame F] [DefaultHasher] [PlainLayout (Entry (UnresolvedFrames F)) B] [Demangle] in
theorem own_nil (s : State F B) : Own s [] where
  session _ hx := absurd hx List.not_mem_nil
  stopped _ := rfl

omit [Frame F] [DefaultHasher] [PlainLayout (Entry (UnresolvedFrames F)) B] [Demangle] in
theorem Own.congr {s s' : State F B} {xs : List (Sample F)} (hs : Own s xs)
    (hrun : s'.running = s.running) (hsession : s'.session = s.session) : Own s' xs where
  session x hx := hsession ▸ hs.session x hx
  stopped hfalse := hs.stopped (hrun ▸ hfalse)

/-- A step on time keeps what was taken in its session. -/
theorem Own.step {s s' : State F B} {e : Event F} {xs : List (Sample F)} (hs : Own s xs)
    (hcurrent : Current s e) (h : s.step e = some s') : Own s' (feeds s e xs) := by
  cases Step.of_step h with
  | moved h' he =>
    rw [feeds_moves he]
    exact hs.congr rfl rfl
  | refused hholder hp => exact hs.congr (running_congr hp rfl rfl) rfl
  | started hholder hp hrun =>
    -- nothing was taken, so the new number of the session is no matter
    rw [feeds_moves rfl, hs.stopped ((running_ok hp).trans hrun)]
    exact own_nil _
  | stopRefused hholder hrun =>
    rw [feeds_stop, if_neg (by simp [hrun])]
    exact hs.congr rfl rfl
  | stopFailed hholder hp =>
    rw [feeds_stop]
    split
    · exact own_nil _
    · exact hs.congr (running_congr hp rfl rfl) rfl
  | stopped hholder hp hrun hdata =>
    rw [feeds_stop, if_pos ⟨(running_ok hp).trans hrun, rfl, rfl⟩]
    exact own_nil _
  | delivered hpending =>
    rw [deliver]
    split <;> exact hs.congr rfl rfl
  | @handled v p io interrupt hholder hp =>
    have hrunning := perfSignalHandler_running p io interrupt
    rw [feeds_handle hholder hp]
    cases hrec : p.recorded interrupt with
    | none => exact hs.congr (running_congr hp rfl hrunning) rfl
    | some frames =>
      obtain ⟨hrun, hsession⟩ := hcurrent v p hholder hp (by rw [hrec]; rfl)
      refine ⟨List.forall_mem_cons.mpr ⟨hsession, hs.session⟩, fun hfalse => ?_⟩
      rw [running_ok rfl, hrunning, ← running_ok hp, hrun] at hfalse
      cases hfalse
  | @handledNone v err io interrupt hholder hp =>
    rw [feeds_handleNone hholder hp]
    exact hs.congr rfl rfl
  | @reported rb io perfmap clear hholder =>
    exact hs.congr (running_report rb io perfmap clear rfl) rfl
  | _ => exact hs.congr rfl rfl

/-! ### What reports count -/

omit [DefaultHasher] in
/-- A report counts the samples of the window, whatever reads and writes fail. -/
theorem Kept.counted {s : State F B} (hs : Kept s) {p : Profiler F B} (hp : s.profiler = .ok p)
    (rb : ReportBuilder) (io : Io) (perfmap : ℕ → ℕ → ℕ → Option Symbol) (clear : Bool)
    {report : Report} (h : (rb.buildAndClear io perfmap clear (.ok p)).1 = .ok report) :
    report.total = s.window.length ∧ ∃ items, p.data.tryIter io = .ok items ∧
      (∀ e ∈ items, e.item ∈ s.window.map Sample.frames) ∧
      ∀ k, (report.data.map fun entry => part (rb.framesKey perfmap) items entry.1 k).sum
        = countOf k (s.window.map Sample.entry) := by
  obtain ⟨err, _, hbuild⟩ | ⟨items, hread, hcases⟩ := rb.buildAndClear_cases io perfmap clear p
  · rw [hbuild] at h
    cases h
  · -- a report that is returned shows what was read, whether or not it was cleared behind it
    have hreport : report = rb.report perfmap items := by
      obtain ⟨_, hbuild⟩ | ⟨_, _, hbuild⟩ | ⟨_, err, _, hbuild⟩ := hcases
      · rw [hbuild] at h
        exact (Except.ok.inj h).symm
      · rw [hbuild] at h
        exact (Except.ok.inj h).symm
      · rw [hbuild] at h
        cases h
    obtain ⟨hitems, hmem⟩ := counts_of_tryIter (hs.held p hp) hread
    rw [hreport]
    refine ⟨total_report hitems hs.few rb perfmap, items, hread, hmem, fun k => ?_⟩
    rw [← hitems.count]
    exact sum_part (hitems.exact hs.few) (rb.framesKey perfmap) k

omit [DefaultHasher] [Demangle] in
/-- So does an unresolved report, for each class of equal stacks. -/
theorem Kept.countedUnresolved {s : State F B} (hs : Kept s) {p : Profiler F B}
    (hp : s.profiler = .ok p) {rb : ReportBuilder} {io : Io} {report : UnresolvedReport F}
    (h : (rb.buildUnresolved io (.ok p)).1 = .ok report) (k : UnresolvedFrames F) :
    report.get k = if countOf k (s.window.map Sample.entry) = 0 then none
      else some (countOf k (s.window.map Sample.entry)) := by
  obtain ⟨err, _, hbuild⟩ | ⟨items, hread, hbuild⟩ := rb.buildUnresolved_cases io p
  · rw [hbuild] at h
    cases h
  · rw [hbuild] at h
    obtain ⟨hitems, _⟩ := counts_of_tryIter (hs.held p hp) hread
    rw [← Except.ok.inj h, hitems.getUnresolved hs.few, countOf_entry]
    simp only [Nat.cast_eq_zero]

/-- **Samples are taken in their own session exactly when no invocation samples
late.**  Whatever the file operations do, the collector was made from the samples
that were taken since it was created, and the last of these are the window.  If
no invocation samples late, they are all of the current session, and there are
none if none is running.  In the runs where no clear fails, what reports count
are the samples of the window. -/
theorem samples_in_session_iff {s₀ s : State F B} (hinit : Init s₀) {es : List (Event F)}
    (hrun : run step s₀ es = some s) :
    (Along step Current s₀ es ↔ Along step (fun s e => onTime s e = true) s₀ es) ∧
    (∀ p, s.profiler = .ok p → Fed p.data (sinceMade s₀ es)) ∧
    s.window <+: sinceMade s₀ es ∧
    (Along step (fun s e => onTime s e = true) s₀ es →
      (∀ x ∈ sinceMade s₀ es, x.session = s.session) ∧
      (s.running = false → sinceMade s₀ es = [])) ∧
    (Along step Fits s₀ es → ∀ p, s.profiler = .ok p →
      ∀ (rb : ReportBuilder) io,
        (∀ perfmap clear report,
          (rb.buildAndClear io perfmap clear (.ok p)).1 = .ok report →
          report.total = s.window.length ∧ ∃ items, p.data.tryIter io = .ok items ∧
            (∀ e ∈ items, e.item ∈ s.window.map Sample.frames) ∧
            ∀ k, (report.data.map fun entry => part (rb.framesKey perfmap) items entry.1 k).sum
              = countOf k (s.window.map Sample.entry)) ∧
        ∀ report, (rb.buildUnresolved io (.ok p)).1 = .ok report →
          ∀ k, report.get k = if countOf k (s.window.map Sample.entry) = 0 then none
            else some (countOf k (s.window.map Sample.entry))) := by
  have hstep : ∀ (s : State F B) e s', Safe s ∧ Entered s → s.step e = some s' →
      Safe s' ∧ Entered s' := fun s e s' hs h => ⟨hs.1.step h, hs.2.step hs.1 h⟩
  -- an invocation samples in its session exactly when it is not late
  have hiff : Along step Current s₀ es ↔ Along step (fun s e => onTime s e = true) s₀ es :=
    along_congr hstep (fun s e hs => current_iff hs.2 e) ⟨hinit.safe, hinit.allEntered⟩
  -- which samples the collector was fed is kept by every step, whatever its files answer
  have hmade : Made s (sinceMade s₀ es) :=
    run_carries (P := fun _ _ => True) (fun _ _ _ _ hs _ h => hs.step h) hinit.made
      (along_of_forall (fun _ _ _ => trivial) s₀) hrun
  refine ⟨hiff, hmade.fed, hmade.window, fun htime => ?_, fun hfits p hp rb io => ?_⟩
  · have hown : Own s (sinceMade s₀ es) := run_carries (fun _ _ _ _ hs hc h => hs.step hc h)
      (own_nil s₀) (hiff.mpr htime) hrun
    exact ⟨hown.session, hown.stopped⟩
  · have hkept : Kept s := run_invariant_along (fun _ _ _ hs hf h => hs.step hf h) hinit.kept
      hfits hrun
    exact ⟨fun perfmap clear report h => hkept.counted hp rb io perfmap clear h,
      fun _ h k => hkept.countedUnresolved hp h k⟩

end Pprof.State

/-! ### Runs with a late invocation -/

namespace Pprof.Given

/-- A guard is dropped while an invocation is between its entry and the lock. -/
def lateEntry : List (Event ℕ) :=
  buildCall .default true ++ [.expire, .deliver] ++ dropCall 0 true true

/-- The invocation that comes late finds the lock busy and gives up. -/
def lateBusy : List (Event ℕ) :=
  lateEntry ++ [.readLock, .tryWrite 0, .readUnlock] ++ buildCall .default true ++ sampling

end Pprof.Given

namespace Pprof.State

open Given

theorem samples_in_session_iff_busy :
    ∃ s : State ℕ Item, run step (idle true) lateBusy = some s ∧
      Along step Current (idle true : State ℕ Item) lateBusy ∧
      (∀ x ∈ s.window, x.session = s.session) := by
  have hrun : run step (idle true : State ℕ Item) lateBusy = some _ := rfl
  have htime : Along step (fun s e => onTime s e = true) (idle true : State ℕ Item) lateBusy := by
    decide
  obtain ⟨hiff, _, hlast, hown, _⟩ := samples_in_session_iff (idle_init true) hrun
  exact ⟨_, hrun, hiff.mpr htime, fun x hx => (hown htime).1 x (hlast.subset hx)⟩

/-- It obtains the lock after the drop and samples into a stopped profiler, or
into the next session. -/
theorem late_sample :
    (∃ s : State ℕ Item, run step (idle true) (lateEntry ++ [.tryWrite 0]) = some s ∧
      s.running = false ∧ ¬ Current s sampled) ∧
    (run step (idle true : State ℕ Item) (lateEntry ++ buildCall .default true ++
        [.tryWrite 0, sampled, .unlock])).map (fun s => (s.session, s.window.map Sample.session))
      = some (2, [1]) := by
  refine ⟨⟨_, rfl, rfl, fun h => ?_⟩, by decide +kernel⟩
  obtain ⟨hrun, _⟩ := h _ _ rfl rfl rfl
  cases hrun

end Pprof.State
