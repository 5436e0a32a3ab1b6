/-
The configuration of the running session.

`build` stores its configuration in the profiler before `start` looks whether
the profiler may start.  A call that fails has therefore changed the profiler
unless it asked for what was there (`refused_build_iff`), and the running
session answers `is_blocklisted` as its builder asked only as long as the
calls that were refused since ask for the same addresses (`Agrees`,
`Configured.step`).
-/
import Pprof.Guards

open ByteFile Transition

namespace Pprof.State

variable {F B : Type*} [Target]

/-- The profiler answers `is_blocklisted` as the builder asked. -/
def Answers (s : State F B) (b : ProfilerGuardBuilder) : Prop :=
  ∀ p, s.profiler = .ok p → ∀ addr, p.isBlocklisted addr = (b.configure p).isBlocklisted addr

/-- A `build` that is refused because a session is running asks for a blocklist
with the same addresses. -/
def Agrees (s : State F B) : Event F → Prop
  | .buildStart _ => ∀ b p, s.holder = .building b → s.profiler = .ok p → p.running = true →
      ∀ addr, (b.configure p).isBlocklisted addr = p.isBlocklisted addr
  | _ => True

/-- The session that is running, or being started, was asked for by its
builder. -/
structure Configured (s : State F B) : Prop where
  guards : ∀ g ∈ s.guards, Answers s g.builder
  started : ∀ b, s.holder = .started b → Answers s b

theorem isBlocklisted_congr {p q : Profiler F B} (h : p.blocklistSegments = q.blocklistSegments)
    (addr : ℕ) : p.isBlocklisted addr = q.isBlocklisted addr := by
  rw [Profiler.isBlocklisted, Profiler.isBlocklisted, h]

theorem Answers.congr {s s' : State F B} {b : ProfilerGuardBuilder} (h : Answers s b)
    (hp : ∀ p', s'.profiler = .ok p' →
      ∃ p, s.profiler = .ok p ∧ p'.blocklistSegments = p.blocklistSegments) : Answers s' b := by
  intro p' hp' addr
  obtain ⟨p, hps, hseg⟩ := hp p' hp'
  rw [isBlocklisted_congr hseg, h p hps]
  exact isBlocklisted_congr rfl addr

theorem Configured.congr {s s' : State F B} (hs : Configured s)
    (hp : ∀ p', s'.profiler = .ok p' →
      ∃ p, s.profiler = .ok p ∧ p'.blocklistSegments = p.blocklistSegments)
    (hguards : ∀ g ∈ s'.guards, ∃ x ∈ s.guards, x.builder = g.builder)
    (hholder : ∀ b, s'.holder = .started b → s.holder = .started b) : Configured s' where
  guards := by
    intro g hg
    obtain ⟨x, hx, hb⟩ := hguards g hg
    exact hb ▸ (hs.guards x hx).congr hp
  started := fun b hb => (hs.started b (hholder b hb)).congr hp

theorem Init.configured {s : State F B} (h : Init s) : Configured s where
  guards g hg := by simp [h.guards] at hg
  started b hb := by simp [h.holder] at hb

variable [Frame F] [DefaultHasher] [Layout (Entry (UnresolvedFrames F)) B] [Demangle]

omit [Demangle] in
theorem perfSignalHandler_blocklist (p : Profiler F B) (io : Io) (i : Interrupt F) :
    (p.perfSignalHandler io i).blocklistSegments = p.blocklistSegments := by
  rw [Profiler.perfSignalHandler]
  cases p.recorded i <;> rfl

/-- A step whose refused `build` agrees keeps the configuration. -/
theorem Configured.step {s s' : State F B} {e : Event F} (hs : Configured s) (hsafe : Safe s)
    (hagrees : Agrees s e) (h : s.step e = some s') : Configured s' := by
  have hsame : ∀ p', s.profiler = .ok p' →
      ∃ p, s.profiler = .ok p ∧ p'.blocklistSegments = p.blocklistSegments :=
    fun p' hp' => ⟨p', hp', rfl⟩
  have hguards : ∀ g ∈ s.guards, ∃ x ∈ s.guards, x.builder = g.builder :=
    fun g hg => ⟨g, hg, rfl⟩
  cases Step.of_step h with
  | moved h' he hquiet hold =>
    refine hs.congr hsame hguards ?_
    rintro b rfl
    cases hquiet
  | @refused b p sigOk hholder hp hcause =>
    refine ⟨fun g hg => ?_, fun _ hb => by cases hb⟩
    -- a guard is alive, so the profiler is running and the call agrees
    have hrun := hsafe.alive g hg (by simp [hholder])
    rw [running_ok hp] at hrun
    intro p' hp' addr
    obtain rfl := Except.ok.inj hp'
    rw [hagrees b p hholder hp hrun, hs.guards g hg p hp]
    exact isBlocklisted_congr rfl addr
  | @started b p hholder hp hrun =>
    refine ⟨fun g hg => ?_, fun b' hb => ?_⟩
    · have hnone := hsafe.guards_eq_nil ((running_ok hp).trans hrun) (by simp [hholder])
      exact absurd (hnone ▸ hg) List.not_mem_nil
    · obtain rfl := Holder.started.inj hb
      intro p' hp' addr
      obtain rfl := Except.ok.inj hp'
      exact isBlocklisted_congr rfl addr
  | @armed b timer itimer startTime startInstant hholder hnew =>
    refine ⟨fun g hg => ?_, fun _ hb => by cases hb⟩
    obtain rfl | hg := List.mem_cons.mp hg
    · exact hs.started b hholder
    · exact hs.guards g hg
  | disarmed hx hid hdropping =>
    refine hs.congr hsame (fun g hg => ?_) fun _ hb => hb
    obtain ⟨y, hy, rfl⟩ := List.mem_map.mp hg
    refine ⟨y, hy, ?_⟩
    split <;> rfl
  | dropLocked => exact hs.congr hsame hguards fun _ hb => by cases hb
  | stopRefused => exact hs.congr hsame hguards fun _ hb => by cases hb
  | stopFailed hholder hp =>
    refine hs.congr (fun p' hp' => ⟨_, hp, ?_⟩) hguards fun _ hb => by cases hb
    rw [← Except.ok.inj hp']
  | stopped hholder hp =>
    refine hs.congr (fun p' hp' => ⟨_, hp, ?_⟩) hguards fun _ hb => by cases hb
    rw [← Except.ok.inj hp']
  | expired => exact hs.congr hsame hguards fun _ hb => hb
  | delivered =>
    refine hs.congr (fun p' hp' => hsame p' ?_) (fun g hg => hguards g ?_) fun _ hb => ?_
    · rwa [deliver_profiler] at hp'
    · rwa [deliver_guards] at hg
    · rwa [deliver_holder] at hb
  | entersLock => exact hs.congr hsame hguards fun _ hb => by cases hb
  | givesUp => exact hs.congr hsame hguards fun _ hb => hb
  | handled hholder hp =>
    refine hs.congr (fun p' hp' => ⟨_, hp, ?_⟩) hguards fun _ hb => by cases hb
    rw [← Except.ok.inj hp', perfSignalHandler_blocklist]
  | handledNone => exact hs.congr hsame hguards fun _ hb => by cases hb
  | @reported rb io perfmap clear hholder =>
    refine hs.congr (fun p' hp' => ?_) hguards fun _ hb => by cases hb
    cases hp : s.profiler with
    | error err =>
      rw [hp] at hp'
      cases hp'
    | ok p =>
      obtain ⟨q, hq, rfl | rfl⟩ := rb.buildAndClear_snd io perfmap clear p
      · rw [hp, hq] at hp'
        exact ⟨q, rfl, by rw [← Except.ok.inj hp']⟩
      · rw [hp, hq] at hp'
        exact ⟨p, rfl, by rw [← Except.ok.inj hp']⟩
  | released =>
    refine hs.congr hsame (fun g hg => ?_) fun _ hb => by cases hb
    exact ⟨g, List.mem_of_mem_filter hg, rfl⟩

theorem answers_of_run {s₀ s : State F B} (hinit : Init s₀) {es : List (Event F)}
    (hrun : run step s₀ es = some s) (hagrees : Along step Agrees s₀ es) :
    ∀ g ∈ s.guards, Answers s g.builder := by
  have hstep : ∀ (s : State F B) e s', Safe s ∧ Configured s → Agrees s e →
      s.step e = some s' → Safe s' ∧ Configured s' :=
    fun s e s' hs he h => ⟨hs.1.step h, hs.2.step hs.1 he h⟩
  exact (run_invariant_along hstep ⟨hinit.safe, hinit.configured⟩ hagrees hrun).2.guards

omit [Frame F] [DefaultHasher] [Layout (Entry (UnresolvedFrames F)) B] [Demangle] in
/-- A refused `build` leaves what it asked for in the profiler. -/
theorem refused_eq {b : ProfilerGuardBuilder} {sigOk : Bool} {action action' : SigAction}
    {p : Profiler F B} {profiler' : Except Error (Profiler F B)} {err : Error}
    (h : b.start sigOk action (.ok p) = (.error err, profiler', action')) :
    profiler' = .ok (b.configure p) := by
  obtain ⟨_, hs⟩ | ⟨_, _, hs⟩ | ⟨_, _, hs⟩ := b.start_cases sigOk action p
  · rw [hs] at h
    exact (Prod.mk.inj (Prod.mk.inj h).2).1.symm
  · rw [hs] at h
    exact (Prod.mk.inj (Prod.mk.inj h).2).1.symm
  · rw [hs] at h
    cases (Prod.mk.inj h).1

/-- **A refused `build` leaves the profiler as it was exactly when it asks for
the configuration that is there**; and in a run whose refused calls agree on
the blocked addresses, the profiler always answers as the live guard's builder
asked. -/
theorem refused_build_iff :
    (∀ (b : ProfilerGuardBuilder) sigOk action (profiler profiler' : Except Error (Profiler F B))
        action' err, b.start sigOk action profiler = (.error err, profiler', action') →
      (profiler' = profiler ↔ ∀ p, profiler = .ok p →
        b.onStack = p.onStack ∧ b.blocklistSegments = p.blocklistSegments)) ∧
    (∀ (s₀ s : State F B) es, Init s₀ → run step s₀ es = some s → Along step Agrees s₀ es →
      ∀ g ∈ s.guards, Answers s g.builder) := by
  refine ⟨?_, fun s₀ s es hinit hrun hagrees => answers_of_run hinit hrun hagrees⟩
  intro b sigOk action profiler profiler' action' err h
  cases profiler with
  | error err' =>
    have hsame : profiler' = .error err' := (Prod.mk.inj (Prod.mk.inj h).2).1.symm
    refine ⟨fun _ _ hp => ?_, fun _ => hsame⟩
    cases hp
  | ok p =>
    -- build has assigned the two fields before start refuses
    rw [refused_eq h, Except.ok.injEq]
    constructor
    · rintro hp q hq
      obtain rfl := Except.ok.inj hq
      exact ⟨congrArg Profiler.onStack hp, congrArg Profiler.blocklistSegments hp⟩
    · intro hq
      obtain ⟨hstack, hseg⟩ := hq p rfl
      rw [ProfilerGuardBuilder.configure, hstack, hseg]

end Pprof.State

/-! ### Runs with a refused call -/

namespace Pprof.State

open Given

/-- A session that blocks the addresses of a library. -/
def blocking : ProfilerGuardBuilder := { ProfilerGuardBuilder.default with
  blocklistSegments := [(0x7F0000000000, 0x7F0000200000)] }

theorem refused_build_iff_agreeing :
    ∃ s : State ℕ Item, run step (idle true) (buildCall blocking true ++ [.buildLock blocking,
        .buildStart true, .unlock]) = some s ∧
      ∀ g ∈ s.guards, Answers s g.builder := by
  have hrun : run step (idle true : State ℕ Item) (buildCall blocking true ++
      [.buildLock blocking, .buildStart true, .unlock]) = some _ := rfl
  have hagrees : Along step Agrees (idle true : State ℕ Item) (buildCall blocking true ++
      [.buildLock blocking, .buildStart true, .unlock]) := by
    refine ⟨trivial, trivial, trivial, ?_, trivial, trivial, trivial, ?_, trivial, trivial⟩
    · intro b p _ hp hrunning
      obtain rfl := Except.ok.inj hp
      cases hrunning
    · intro b p hb hp _ addr
      obtain rfl := Holder.building.inj hb
      obtain rfl := Except.ok.inj hp
      rfl
  exact ⟨_, hrun, refused_build_iff.2 _ _ _ (idle_init true) hrun hagrees⟩

/-- A second `build` without a blocklist is refused, and the address of the
library is no longer blocked in the running session. -/
theorem blocklist_lost :
    ∃ s : State ℕ Item, run step (idle true) (buildCall blocking true ++ [.buildLock .default,
        .buildStart true, .unlock]) = some s ∧
      ∃ g ∈ s.guards, ¬ Answers s g.builder := by
  refine ⟨_, rfl, _, List.mem_cons_self, ?_⟩
  intro hanswers
  have h := hanswers _ rfl 0x7F0000100000
  exact absurd h (by decide +kernel)

end Pprof.State
