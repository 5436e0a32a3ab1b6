/-
Guards and the signal.

* `Safe` — what holds in every state of the process: there is at most one
  guard, the handler is installed while it is not being dropped, an armed timer
  belongs to it, and `SIGPROF` is never left at its fatal default once the
  timer was armed;
* `Safe.step` — every step keeps it;
* `sigprof_never_fatal` — so does every run;
* `drop_restartable_iff` — a drop leaves a profiler that can be started again
  exactly when the calls made in `stop` succeed.
-/
import Pprof.Process
import Pprof.Transition

open ByteFile Transition

namespace Pprof.State

variable {F B : Type*} [Target]

/-- The handler is installed, or the signal is ignored. -/
def Harmless (a : SigAction) : Prop := a.handler = .perfSignalHandler ∨ a.handler = .sigIgn

/-- The invariant of the process. -/
structure Safe (s : State F B) : Prop where
  guards_le : s.guards.length ≤ 1
  alive : ∀ g ∈ s.guards, s.holder ≠ .stopped g.id → s.running = true
  handler : ∀ g ∈ s.guards, g.dropping = false → s.action.handler = .perfSignalHandler
  started : ∀ b, s.holder = .started b →
    s.running = true ∧ s.guards = [] ∧ s.action.handler = .perfSignalHandler
  stopping : ∀ g, s.holder = .stopping g ∨ s.holder = .stopped g →
    ∃ x ∈ s.guards, x.id = g ∧ x.dropping = true
  armed : s.itimer.isSome → ∃ g ∈ s.guards, g.id = s.timerOwner ∧ g.dropping = false
  harmless : s.itimer.isSome ∨ s.pending = true → Harmless s.action
  running_of_handler : s.action.handler = .perfSignalHandler → s.running = true
  killed : s.killed = false

theorem Init.safe {s : State F B} (h : Init s) : Safe s where
  guards_le := by simp [h.guards]
  alive g hg := by simp [h.guards] at hg
  handler g hg := by simp [h.guards] at hg
  started b hb := by simp [h.holder] at hb
  stopping g hg := by simp [h.holder] at hg
  armed ht := by simp [h.itimer] at ht
  harmless ht := by simp [h.itimer, h.pending] at ht
  running_of_handler ha := absurd ha h.action
  killed := h.killed

variable [Frame F] [DefaultHasher] [Layout (Entry (UnresolvedFrames F)) B] [Demangle]

omit [Demangle] in
theorem perfSignalHandler_running (p : Profiler F B) (io : Io) (i : Interrupt F) :
    (p.perfSignalHandler io i).running = p.running := by
  rw [Profiler.perfSignalHandler]
  cases p.recorded i <;> rfl

omit [DefaultHasher] in
/-- No report call starts or stops the profiler. -/
theorem running_report {s s' : State F B} (rb : ReportBuilder) (io : Io)
    (perfmap : ℕ → ℕ → ℕ → Option Symbol) (clear : Bool)
    (h : s'.profiler = (rb.buildAndClear io perfmap clear s.profiler).2) :
    s'.running = s.running := by
  cases hp : s.profiler with
  | error err =>
    rw [hp] at h
    rw [running, running, h, hp]
    rfl
  | ok p =>
    obtain ⟨p', hp', rfl | rfl⟩ := rb.buildAndClear_snd io perfmap clear p
    · rw [hp, hp'] at h
      exact running_congr hp h rfl
    · rw [hp, hp'] at h
      exact running_congr hp h rfl

omit [Frame F] [DefaultHasher] [Layout (Entry (UnresolvedFrames F)) B] [Demangle] in
/-- There is only one guard. -/
theorem Safe.eq_of_mem {s : State F B} (hs : Safe s) {x y : Guard} (hx : x ∈ s.guards)
    (hy : y ∈ s.guards) : x = y := by
  have hle := hs.guards_le
  match hguards : s.guards with
  | [] => simp [hguards] at hx
  | [z] =>
    rw [hguards, List.mem_singleton] at hx hy
    rw [hx, hy]
  | _ :: _ :: _ => simp [hguards] at hle

omit [Frame F] [DefaultHasher] [Layout (Entry (UnresolvedFrames F)) B] [Demangle] in
/-- Inside a critical section that neither starts nor stops a session, only
`running` matters. -/
theorem Safe.quietly {s : State F B} (hs : Safe s)
    (hold : ∀ g, s.holder ≠ .stopping g ∧ s.holder ≠ .stopped g)
    {profiler : Except Error (Profiler F B)} {h : Holder} {window : List (Sample F)}
    (hquiet : Holder.quiet h)
    (hrun : running { s with profiler := profiler, holder := h, window := window } = s.running) :
    Safe { s with profiler := profiler, holder := h, window := window } := by
  refine { hs with
    alive := fun g hg _ => hrun.trans (hs.alive g hg (hold g.id).2)
    started := ?_
    stopping := ?_
    running_of_handler := fun ha => hrun.trans (hs.running_of_handler ha) }
  · rintro b rfl
    cases hquiet
  · rintro g (rfl | rfl) <;> cases hquiet

omit [Frame F] [DefaultHasher] [Layout (Entry (UnresolvedFrames F)) B] [Demangle] in
/-- While a guard is being stopped no guard is intact. -/
theorem Safe.dropping_of_stopping {s : State F B} (hs : Safe s) {g : ℕ}
    (hholder : s.holder = .stopping g ∨ s.holder = .stopped g) {x : Guard} (hx : x ∈ s.guards) :
    x.id = g ∧ x.dropping = true := by
  obtain ⟨y, hy, hid, hdropping⟩ := hs.stopping g hholder
  rw [hs.eq_of_mem hx hy]
  exact ⟨hid, hdropping⟩

omit [Frame F] [DefaultHasher] [Layout (Entry (UnresolvedFrames F)) B] [Demangle] in
/-- The drop of a live guard finds the profiler running. -/
theorem Safe.running_of_stopping {s : State F B} (hs : Safe s) {g : ℕ}
    (hholder : s.holder = .stopping g) : s.running = true := by
  obtain ⟨x, hx, _⟩ := hs.stopping g (.inl hholder)
  exact hs.alive x hx (by simp [hholder])

omit [Frame F] [DefaultHasher] [Layout (Entry (UnresolvedFrames F)) B] [Demangle] in
/-- Without an intact guard the timer is not armed. -/
theorem Safe.not_armed {s : State F B} (hs : Safe s) (h : ∀ g ∈ s.guards, g.dropping = true) :
    ¬ s.itimer.isSome := by
  intro ht
  obtain ⟨g, hg, _, hintact⟩ := hs.armed ht
  rw [h g hg] at hintact
  cases hintact

omit [Frame F] [DefaultHasher] [Layout (Entry (UnresolvedFrames F)) B] [Demangle] in
/-- A guard means that the profiler is running. -/
theorem Safe.guards_eq_nil {s : State F B} (hs : Safe s) (hrun : s.running = false)
    (hold : ∀ g, s.holder ≠ .stopped g) : s.guards = [] := by
  refine List.eq_nil_iff_forall_not_mem.mpr fun g hg => ?_
  rw [hs.alive g hg (hold g.id)] at hrun
  cases hrun

/-- **Every step keeps the invariant.** -/
theorem Safe.step {s s' : State F B} {e : Event F} (hs : Safe s) (h : s.step e = some s') :
    Safe s' := by
  cases Step.of_step h with
  | moved h' he hquiet hold => exact hs.quietly hold hquiet rfl
  | refused hholder hp hcause =>
    exact hs.quietly (by simp [hholder]) rfl (running_congr hp rfl rfl)
  | @started b p hholder hp hrun =>
    have hguards := hs.guards_eq_nil ((running_ok hp).trans hrun) (by simp [hholder])
    have hnot : ¬ s.itimer.isSome := hs.not_armed (by simp [hguards])
    exact {
      guards_le := hs.guards_le
      alive := fun _ _ _ => rfl
      handler := fun _ _ _ => rfl
      started := fun _ _ => ⟨rfl, hguards, rfl⟩
      stopping := by rintro g (hg | hg) <;> cases hg
      armed := fun ht => absurd ht hnot
      harmless := fun _ => .inl rfl
      running_of_handler := fun _ => rfl
      killed := hs.killed }
  | @armed b timer itimer startTime startInstant hholder hnew =>
    obtain ⟨hrun, hguards, hhandler⟩ := hs.started b hholder
    -- so what `Timer::new` arms is a timer that was not armed
    have hnot : ¬ s.itimer.isSome := hs.not_armed (by simp [hguards])
    rw [Option.not_isSome_iff_eq_none.mp hnot] at hnew
    exact {
      guards_le := by simp [armedBy, hguards]
      alive := fun _ _ _ => hrun
      handler := fun _ _ _ => hhandler
      started := fun _ hb => by cases hb
      stopping := by rintro g (hg | hg) <;> cases hg
      armed := fun ht => ⟨_, List.mem_cons_self, (if_pos (Timer.valid_of_new hnew ht)).symm, rfl⟩
      harmless := fun _ => .inl hhandler
      running_of_handler := fun _ => hrun
      killed := hs.killed }
  | @disarmed g x hx hid hdropping =>
    refine { hs with
      guards_le := by simpa using hs.guards_le
      alive := ?_
      handler := ?_
      started := ?_
      stopping := ?_
      armed := fun ht => by cases ht
      harmless := fun ht => hs.harmless (.inr (ht.resolve_left (by simp))) }
    · intro y hy hne
      obtain ⟨z, hz, rfl⟩ := List.mem_map.mp hy
      refine hs.alive z hz ?_
      by_cases hzg : z.id = g
      · simpa [hzg] using hne
      · simpa [hzg] using hne
    · intro y hy hyd
      obtain ⟨z, hz, rfl⟩ := List.mem_map.mp hy
      by_cases hzg : z.id = g
      · simp [hzg] at hyd
      · exact hs.handler z hz (by simpa [hzg] using hyd)
    · intro b hb
      have hguards := (hs.started b hb).2.1
      rw [hguards] at hx
      exact absurd hx List.not_mem_nil
    · intro g' hg'
      obtain ⟨z, hz, hzid, hzd⟩ := hs.stopping g' hg'
      refine ⟨_, List.mem_map_of_mem hz, ?_⟩
      by_cases hzg : z.id = g
      · rw [if_pos hzg]
        exact ⟨hzid, rfl⟩
      · rw [if_neg hzg]
        exact ⟨hzid, hzd⟩
  | @dropLocked g x hholder hx hid hdropping =>
    refine { hs with
      alive := fun y hy _ => hs.alive y hy (by simp [hholder])
      started := fun _ hb => by cases hb
      stopping := ?_ }
    rintro g' (hg' | hg')
    · obtain rfl := Holder.stopping.inj hg'
      exact ⟨x, hx, hid, hdropping⟩
    · cases hg'
  | @stopRefused g sigOk tempfile hholder hrun =>
    rw [hs.running_of_stopping hholder] at hrun
    cases hrun
  | @stopFailed g p counter action sigOk tempfile hholder hp hrun hcause =>
    have hdropping := fun {x} => hs.dropping_of_stopping (.inl hholder) (x := x)
    refine {
      guards_le := hs.guards_le
      alive := fun _ _ _ => hrun
      handler := fun y hy hyd => ?_
      started := fun _ hb => by cases hb
      stopping := ?_
      armed := fun ht => absurd ht (hs.not_armed fun y hy => (hdropping hy).2)
      harmless := fun ht => ?_
      running_of_handler := fun _ => hrun
      killed := hs.killed }
    · rw [(hdropping hy).2] at hyd
      cases hyd
    · rintro g' (hg' | hg')
      · cases hg'
      · obtain rfl := Holder.stopped.inj hg'
        exact hs.stopping g (.inl hholder)
    · -- the signal is ignored if the failure is that of the temporary file
      obtain ⟨_, _, rfl⟩ | ⟨_, _, _, rfl⟩ := hcause
      · exact hs.harmless ht
      · exact .inr rfl
  | @stopped g p data hholder hp hrun hdata =>
    have hdropping := fun {x} => hs.dropping_of_stopping (.inl hholder) (x := x)
    refine {
      guards_le := hs.guards_le
      alive := fun y hy hne => ?_
      handler := fun y hy hyd => ?_
      started := fun _ hb => by cases hb
      stopping := ?_
      armed := fun ht => absurd ht (hs.not_armed fun y hy => (hdropping hy).2)
      harmless := fun _ => .inr rfl
      running_of_handler := fun ha => by cases ha
      killed := hs.killed }
    · -- the only guard is the one being stopped
      exact absurd (congrArg Holder.stopped (hdropping hy).1.symm) hne
    · rw [(hdropping hy).2] at hyd
      cases hyd
    · rintro g' (hg' | hg')
      · cases hg'
      · obtain rfl := Holder.stopped.inj hg'
        exact hs.stopping g (.inl hholder)
  | expired harmed =>
    exact { hs with harmless := fun _ => hs.harmless (.inl harmed) }
  | delivered hpending =>
    -- a pending signal meets the handler, or is ignored
    obtain ha | ha := hs.harmless (.inr hpending)
    · have hd : s.deliver = { s with
          pending := false, entered := ⟨s.session, false⟩ :: s.entered } := by
        simp only [State.deliver, ha]
      rw [hd]
      exact { hs with harmless := fun _ => .inl ha }
    · have hd : s.deliver = { s with pending := false } := by simp only [State.deliver, ha]
      rw [hd]
      exact { hs with harmless := fun _ => .inr ha }
  | entersLock hv hholder =>
    exact { hs with
      alive := fun y hy _ => hs.alive y hy (by simp [hholder])
      started := fun _ hb => by cases hb
      stopping := by rintro g (hg | hg) <;> cases hg }
  | givesUp hv hholder => exact { hs with }
  | handled hholder hp =>
    exact hs.quietly (by simp [hholder]) rfl
      (running_congr hp rfl (perfSignalHandler_running _ _ _))
  | handledNone hholder hp => exact hs.quietly (by simp [hholder]) rfl rfl
  | @reported rb io perfmap clear hholder =>
    exact hs.quietly (by simp [hholder]) rfl (running_report rb io perfmap clear rfl)
  | @released g hholder =>
    have hdropping := fun {x} => hs.dropping_of_stopping (.inr hholder) (x := x)
    -- the guard that is released is the only one
    have hmem : ∀ {y}, y ∈ s.guards.filter (fun x => x.id != g) → False := by
      intro y hy
      obtain ⟨hy, hne⟩ := List.mem_filter.mp hy
      rw [(hdropping hy).1] at hne
      simp at hne
    exact { hs with
      guards_le := (List.length_filter_le _ _).trans hs.guards_le
      alive := fun y hy => (hmem hy).elim
      handler := fun y hy => (hmem hy).elim
      started := fun _ hb => by cases hb
      stopping := by rintro g (hg | hg) <;> cases hg
      armed := fun ht => absurd ht (hs.not_armed fun y hy => (hdropping hy).2) }

theorem safe_of_run {s₀ s : State F B} (hinit : Init s₀) {es : List (Event F)}
    (hrun : run step s₀ es = some s) : Safe s :=
  run_invariant (fun _ _ _ hs h => hs.step h) hinit.safe hrun

/-- **`SIGPROF` never meets its default disposition**, and there is never a
second guard. -/
theorem sigprof_never_fatal {s₀ s : State F B} (hinit : Init s₀) {es : List (Event F)}
    (hrun : run step s₀ es = some s) :
    s.guards.length ≤ 1 ∧
    (∀ g ∈ s.guards, g.dropping = false → s.action.handler = .perfSignalHandler) ∧
    (s.itimer.isSome ∨ s.pending = true →
      (s.action.handler = .perfSignalHandler ∨ s.action.handler = .sigIgn) ∧
        s.action.handler ≠ .sigDfl) ∧
    s.killed = false ∧
    ∀ g s', s.step (.dropDisarm g) = some s' → s.itimer.isSome → s.timerOwner = g := by
  have hs := safe_of_run hinit hrun
  refine ⟨hs.guards_le, hs.handler, fun ht => ⟨hs.harmless ht, ?_⟩, hs.killed, ?_⟩
  · intro hdfl
    obtain ha | ha := hs.harmless ht <;> rw [ha] at hdfl <;> cases hdfl
  · intro g s' hstep harmed
    obtain ⟨x, hx, hid, _⟩ := hs.armed harmed
    cases Step.of_step hstep with
    | moved h' he _ _ => cases he
    | disarmed hy hyid _ => rw [← hid, hs.eq_of_mem hx hy, hyid]

/-! ### Starting again -/

/-- There is a profiler, and it is not running. -/
def Restartable (s : State F B) : Prop := ∃ p, s.profiler = .ok p ∧ p.running = false

/-- The profiler is running, and nobody is left to stop it. -/
structure Wedged (s : State F B) : Prop where
  runs : s.running = true
  stopping : ∀ g, s.holder ≠ .stopping g
  started : ∀ b, s.holder ≠ .started b
  guards : ∀ x ∈ s.guards, s.holder = .stopped x.id

/-- Only `build` starts a profiler. -/
theorem Restartable.step {s s' : State F B} {e : Event F} (hs : Restartable s)
    (h : s.step e = some s') (he : ∀ sigOk, e ≠ .buildStart sigOk) : Restartable s' := by
  obtain ⟨p, hp, hrun⟩ := hs
  cases Step.of_step h with
  | refused => exact absurd rfl (he _)
  | started => exact absurd rfl (he _)
  | stopFailed _ hp' hrun' =>
    obtain rfl := Except.ok.inj (hp.symm.trans hp')
    rw [hrun] at hrun'
    cases hrun'
  | stopped => exact ⟨_, rfl, rfl⟩
  | delivered => exact ⟨p, by rw [deliver_profiler, hp], hrun⟩
  | handled _ hp' =>
    obtain rfl := Except.ok.inj (hp.symm.trans hp')
    exact ⟨_, rfl, (perfSignalHandler_running p _ _).trans hrun⟩
  | @reported rb io perfmap clear =>
    obtain ⟨p', hp', hcase⟩ := rb.buildAndClear_snd io perfmap clear p
    refine ⟨p', by rw [hp, hp'], ?_⟩
    -- a report leaves the profiler or clears it, and neither starts it
    obtain rfl | rfl := hcase
    · exact hrun
    · exact hrun
  | _ => exact ⟨p, hp, hrun⟩

omit [Frame F] [DefaultHasher] [Layout (Entry (UnresolvedFrames F)) B] [Demangle] in
theorem Wedged.guards_eq {s : State F B} (hs : Wedged s) (hold : ∀ g, s.holder ≠ .stopped g) :
    s.guards = [] := by
  refine List.eq_nil_iff_forall_not_mem.mpr fun x hx => ?_
  exact hold x.id (hs.guards x hx)

omit [Frame F] [DefaultHasher] [Layout (Entry (UnresolvedFrames F)) B] [Demangle] in
theorem Wedged.quietly {s : State F B} (hs : Wedged s) (hold : ∀ g, s.holder ≠ .stopped g)
    {profiler : Except Error (Profiler F B)} {h : Holder} {window : List (Sample F)}
    (hquiet : Holder.quiet h)
    (hrun : running { s with profiler := profiler, holder := h, window := window } = s.running) :
    Wedged { s with profiler := profiler, holder := h, window := window } where
  runs := hrun.trans hs.runs
  stopping := by
    rintro g rfl
    cases hquiet
  started := by
    rintro b rfl
    cases hquiet
  guards := by
    intro x hx
    rw [hs.guards_eq hold] at hx
    exact absurd hx List.not_mem_nil

/-- A profiler that nobody is left to stop stays so. -/
theorem Wedged.step {s s' : State F B} {e : Event F} (hs : Wedged s) (h : s.step e = some s') :
    Wedged s' := by
  cases Step.of_step h with
  | moved h' he hquiet hold => exact hs.quietly (fun g => (hold g).2) hquiet rfl
  | refused hholder hp hcause =>
    exact hs.quietly (by simp [hholder]) rfl (running_congr hp rfl rfl)
  | started hholder hp hrun =>
    -- `start` finds the profiler running
    have hrun' := hs.runs
    rw [running_ok hp, hrun] at hrun'
    cases hrun'
  | armed hholder => exact absurd hholder (hs.started _)
  | disarmed hx hid hdropping =>
    refine ⟨hs.runs, hs.stopping, hs.started, ?_⟩
    intro y hy
    obtain ⟨z, hz, rfl⟩ := List.mem_map.mp hy
    show s.holder = _
    rw [hs.guards z hz]
    split <;> rfl
  | dropLocked hholder hx =>
    -- there is no guard to drop
    rw [hs.guards_eq (by simp [hholder])] at hx
    exact absurd hx List.not_mem_nil
  | stopRefused hholder => exact absurd hholder (hs.stopping _)
  | stopFailed hholder => exact absurd hholder (hs.stopping _)
  | stopped hholder => exact absurd hholder (hs.stopping _)
  | expired => exact { hs with }
  | delivered =>
    refine ⟨?_, ?_, ?_, ?_⟩
    · rw [running, deliver_profiler]
      exact hs.runs
    · rw [deliver_holder]
      exact hs.stopping
    · rw [deliver_holder]
      exact hs.started
    · rw [deliver_holder, deliver_guards]
      exact hs.guards
  | entersLock _ hholder =>
    have hguards := hs.guards_eq (by simp [hholder])
    exact ⟨hs.runs, by simp, by simp, by simp [hguards]⟩
  | givesUp => exact { hs with }
  | handled hholder hp =>
    exact hs.quietly (by simp [hholder]) rfl
      (running_congr hp rfl (perfSignalHandler_running _ _ _))
  | handledNone hholder => exact hs.quietly (by simp [hholder]) rfl rfl
  | @reported rb io perfmap clear hholder =>
    exact hs.quietly (by simp [hholder]) rfl (running_report rb io perfmap clear rfl)
  | released hholder =>
    refine ⟨hs.runs, by simp, by simp, ?_⟩
    intro y hy
    -- the last guard goes with the lock
    obtain ⟨hy, hne⟩ := List.mem_filter.mp hy
    have hid := Holder.stopped.inj (hholder.symm.trans (hs.guards y hy))
    simp [hid] at hne

omit [Frame F] [DefaultHasher] [Layout (Entry (UnresolvedFrames F)) B] [Demangle] in
/-- A wedged profiler refuses every `build`. -/
theorem Wedged.refuses {s : State F B} (hs : Wedged s) (b : ProfilerGuardBuilder) (sigOk : Bool) :
    (b.start sigOk s.action s.profiler).1 = .error .running := by
  obtain ⟨p, hp, hrun⟩ := running_eq_true.mp hs.runs
  rw [hp]
  obtain ⟨_, h⟩ | ⟨h, _⟩ | ⟨h, _⟩ := b.start_cases sigOk s.action p
  · rw [h]
  · rw [hrun] at h
    cases h
  · rw [hrun] at h
    cases h

/-- **A drop leaves a profiler that can be started again exactly when the calls
made in `stop` succeed**, whatever happens until the next start; if one fails,
every later `build` is refused. -/
theorem drop_restartable_iff {s₀ s : State F B} (hinit : Init s₀) {es₁ es₂ : List (Event F)}
    {sigOk tempfile : Bool} (hrun : run step s₀ (es₁ ++ .dropStop sigOk tempfile :: es₂) = some s)
    (hes₂ : ∀ e ∈ es₂, ∀ sigOk, e ≠ .buildStart sigOk) :
    (s.running = false ↔ sigOk = true ∧ tempfile = true) ∧
    (s.running = false → ∀ b : ProfilerGuardBuilder,
      (b.start true s.action s.profiler).1 = .ok ()) ∧
    (s.running = true → ∀ es t, run step s es = some t → ∀ (b : ProfilerGuardBuilder) sigOk,
      (b.start sigOk t.action t.profiler).1 = .error .running) := by
  obtain ⟨s₁, hrun₁, hrun₂⟩ := run_append_eq_some.mp hrun
  obtain ⟨s₂, hstop, hrun₂⟩ := run_cons_eq_some.mp hrun₂
  have hs₁ := safe_of_run hinit hrun₁
  cases Step.of_step hstop with
  | moved h' he => cases he
  | stopRefused hholder hfalse =>
    rw [hs₁.running_of_stopping hholder] at hfalse
    cases hfalse
  | @stopFailed g p counter action _ _ hholder hp hrunning hcause =>
    -- nobody is left who could stop it, and every later `start` is refused
    have hwedged : Wedged s := by
      refine run_invariant (fun _ _ _ hs h => hs.step h) ?_ hrun₂
      refine ⟨hrunning, by simp, by simp, fun x hx => ?_⟩
      rw [(hs₁.dropping_of_stopping (.inl hholder) hx).1]
    refine ⟨?_, ?_, fun _ es t hes b sigOk => ?_⟩
    · rw [hwedged.runs]
      obtain ⟨hsig, _⟩ | ⟨_, htemp, _⟩ := hcause
      · simp [hsig]
      · simp [htemp]
    · intro hfalse
      rw [hwedged.runs] at hfalse
      cases hfalse
    · have ht : Wedged t := run_invariant (fun _ _ _ hs h => hs.step h) hwedged hes
      exact ht.refuses b sigOk
  | stopped hholder hp hrunning hdata =>
    -- the profiler is stopped, and stays so until the next `start`
    have halong : ∀ s : State F B,
        Along step (fun _ e => ∀ sigOk, e ≠ .buildStart sigOk) s es₂ :=
      along_of_forall fun e he _ => hes₂ e he
    obtain ⟨p, hp', hfalse⟩ : Restartable s :=
      run_invariant_along (fun _ _ _ hs he h => hs.step h he) ⟨_, rfl, rfl⟩ (halong _) hrun₂
    have hs : s.running = false := (running_ok hp').trans hfalse
    refine ⟨by simp [hs], fun _ b => ?_, ?_⟩
    · rw [hp']
      obtain ⟨h, _⟩ | ⟨_, h, _⟩ | ⟨_, _, h⟩ := b.start_cases true s.action p
      · rw [hfalse] at h
        cases h
      · cases h
      · rw [h]
    · intro htrue
      rw [hs] at htrue
      cases htrue

end Pprof.State

/-! ### Runs of single guards -/

namespace Pprof.State

open Given

/-- A signal is pending while the drop of the guard waits for its `stop`. -/
theorem sigprof_never_fatal_pending :
    ∃ s : State ℕ Item, run step (idle true) (buildCall .default true ++
        [.expire, .deliver, .expire, .dropDisarm 0, .dropLock 0]) = some s ∧
      s.pending = true ∧ s.itimer = none ∧ s.guards.length ≤ 1 ∧
      s.action.handler ≠ .sigDfl := by
  have hrun : run step (idle true : State ℕ Item) (buildCall .default true ++
      [.expire, .deliver, .expire, .dropDisarm 0, .dropLock 0]) = some _ := rfl
  obtain ⟨hle, _, hharmless, _⟩ := sigprof_never_fatal (idle_init true) hrun
  exact ⟨_, hrun, rfl, rfl, hle, (hharmless (.inr rfl)).2⟩

theorem drop_restartable_iff_again :
    ∃ s : State ℕ Item, run step (idle true) ((buildCall .default true ++
        [.dropDisarm 0, .dropLock 0]) ++ .dropStop true true :: [.unlock]) = some s ∧
      s.running = false := by
  have hrun : run step (idle true : State ℕ Item) ((buildCall .default true ++
      [.dropDisarm 0, .dropLock 0]) ++ .dropStop true true :: [.unlock]) = some _ := rfl
  exact ⟨_, hrun, (drop_restartable_iff (idle_init true) hrun (by simp)).1.mpr ⟨rfl, rfl⟩⟩

/-- The `sigaction` of the drop fails: no guard is left, and the profiler runs. -/
theorem drop_not_restartable :
    ∃ s : State ℕ Item, run step (idle true) (buildCall .default true ++ dropCall 0 false true)
        = some s ∧
      s.holder = .free ∧ s.guards = [] ∧ s.running = true :=
  ⟨_, rfl, rfl, rfl, rfl⟩

end Pprof.State
