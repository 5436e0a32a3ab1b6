/-
The locks and the lazy statics.

`PROFILER` and `UNWINDER` are read-write locks that are made when they are first
used.  `trigger_lazy` makes both, the second while it holds the first for
reading, before `build` asks for the first to write; the handler tries the
first, and while it holds that it tries the second.  A comment in
`framehop_unwinder.rs` says that the second attempt should always succeed on
Linux, where one handler runs at a time, and is not sure about other systems.

Here any number of threads build, drop and report, and the handler may interrupt
each of them between any two steps, also on several threads at once.  Who holds
a lock is told by where the threads are.

* `Inv` — who excludes whom, and what is made before what;
* `State.never_faults` — the handler makes no static, and never finds the lock
  of the unwinder taken, on any system;
* `State.drains` — no call waits for ever: as long as no call and no signal is
  added, all come to their end, whatever the order of their steps.
-/
import Pprof.Transition

open Transition

namespace Pprof.Locks

/-- What is done under the lock of `PROFILER` for writing. -/
inductive Task where
  | start
  | stop
  | report
  deriving DecidableEq

/-- The next step of a thread. -/
inductive Phase where
  | idle
  /-- `PROFILER.read()` of `trigger_lazy`. -/
  | forceProfiler
  | initProfiler
  | lockRead
  /-- `UNWINDER.read()` of `Trace::init`. -/
  | forceUnwinder
  | initUnwinder
  | readUnwinder
  | dropUnwinder
  | unlockRead
  | lockWrite (task : Task)
  | critical (task : Task)
  | unlockWrite
  /-- `build_unresolved`. -/
  | lockShared
  | shared
  deriving DecidableEq

/-- The next step of `perf_signal_handler`. -/
inductive Handler where
  | entered
  | locked
  | unwinding
  | leaving
  deriving DecidableEq

/-- A thread, and the handler where it interrupts the thread. -/
structure Thread where
  phase : Phase
  handler : Option Handler
  deriving DecidableEq

/-- How `start` and the timer, or `stop`, answer. -/
inductive Answer where
  | ok
  | refused
  /-- The division in `Timer::new` panics after `start`. -/
  | panics
  deriving DecidableEq

inductive Fault where
  /-- The handler is the first to use a static. -/
  | lazyInHandler
  /-- `UNWINDER.try_write()` fails. -/
  | unwinderBusy
  deriving DecidableEq

/-- What the threads share: which statics are made, whether the handler is the
disposition of the signal, and how many guards there are. -/
structure Shared where
  profilerReady : Bool
  unwinderReady : Bool
  installed : Bool
  guards : ℕ
  faults : List Fault
  deriving DecidableEq

/-! ### Who holds the locks -/

/-- The thread holds `PROFILER` for reading. -/
def Phase.reads : Phase → Bool
  | .forceUnwinder | .initUnwinder | .readUnwinder | .dropUnwinder | .unlockRead | .shared => true
  | _ => false

/-- The thread holds `PROFILER` for writing. -/
def Phase.writes : Phase → Bool
  | .critical _ | .unlockWrite => true
  | _ => false

/-- The handler holds `PROFILER` for writing. -/
def Handler.writes : Handler → Bool
  | .entered => false
  | _ => true

def Thread.handlerWrites (t : Thread) : Bool := t.handler.any Handler.writes

/-- `PROFILER.read()` does not wait. -/
def canRead (threads : List Thread) : Bool :=
  threads.all fun t => !t.phase.writes && !t.handlerWrites

/-- `PROFILER.write()` does not wait, and `try_write` succeeds. -/
def canWrite (threads : List Thread) : Bool :=
  threads.all fun t => !t.phase.reads && !t.phase.writes && !t.handlerWrites

/-- `UNWINDER.read()` does not wait. -/
def canReadUnwinder (threads : List Thread) : Bool :=
  threads.all fun t => t.handler != some .unwinding

/-- `UNWINDER.try_write()` succeeds. -/
def canWriteUnwinder (threads : List Thread) : Bool :=
  threads.all fun t => t.phase != .dropUnwinder && t.handler != some .unwinding

/-! ### Steps -/

/-- One step of a call. -/
def Phase.advance (g : Shared) (threads : List Thread) (answer : Answer) :
    Phase → Option (Shared × Phase)
  | .idle => none
  | .forceProfiler =>
    if g.profilerReady then some (g, .lockRead)
    -- another thread makes it
    else if threads.any fun t => t.phase == .initProfiler then none
    else some (g, .initProfiler)
  | .initProfiler => some ({ g with profilerReady := true }, .lockRead)
  | .lockRead => if canRead threads then some (g, .forceUnwinder) else none
  | .forceUnwinder =>
    if g.unwinderReady then some (g, .readUnwinder)
    else if threads.any fun t => t.phase == .initUnwinder then none
    else some (g, .initUnwinder)
  | .initUnwinder => some ({ g with unwinderReady := true }, .readUnwinder)
  | .readUnwinder => if canReadUnwinder threads then some (g, .dropUnwinder) else none
  | .dropUnwinder => some (g, .unlockRead)
  | .unlockRead => some (g, .lockWrite .start)
  | .lockWrite task => if canWrite threads then some (g, .critical task) else none
  | .critical .start =>
    match answer with
    | .ok => some ({ g with installed := true, guards := g.guards + 1 }, .unlockWrite)
    | .refused => some (g, .unlockWrite)
    | .panics => some ({ g with installed := true }, .unlockWrite)
  | .critical .stop =>
    some (if answer = .ok then { g with installed := false } else g, .unlockWrite)
  | .critical .report => some (g, .unlockWrite)
  | .unlockWrite => some (g, .idle)
  | .lockShared => if canRead threads then some (g, .shared) else none
  | .shared => some (g, .idle)

/-- One step of the handler; `skip` is whether it returns before it unwinds. -/
def Handler.advance (g : Shared) (threads : List Thread) (skip : Bool) :
    Handler → Shared × Option Handler
  | .entered =>
    if !g.profilerReady then ({ g with faults := .lazyInHandler :: g.faults }, none)
    else if canWrite threads then (g, some .locked)
    else (g, none)
  | .locked =>
    if skip then (g, some .leaving)
    else if !g.unwinderReady then ({ g with faults := .lazyInHandler :: g.faults }, some .leaving)
    else if canWriteUnwinder threads then (g, some .unwinding)
    else ({ g with faults := .unwinderBusy :: g.faults }, some .leaving)
  | .unwinding => (g, some .leaving)
  | .leaving => (g, none)

structure State where
  shared : Shared
  threads : List Thread
  deriving DecidableEq

/-- A call of the public interface. -/
inductive Call where
  | build
  | drop
  | report
  | unresolved
  deriving DecidableEq

inductive Event where
  /-- A thread is created. -/
  | spawn
  | call (i : ℕ) (call : Call)
  /-- The signal interrupts a thread. -/
  | signal (i : ℕ)
  /-- One step of the call that the thread is in. -/
  | advance (i : ℕ) (answer : Answer)
  /-- One step of the handler on the thread. -/
  | handle (i : ℕ) (skip : Bool)

/-- The first step of a call; all but `build` need a guard. -/
def Call.begin (g : Shared) : Call → Option (Shared × Phase)
  | .build => some (g, .forceProfiler)
  | .drop =>
    if 0 < g.guards then some ({ g with guards := g.guards - 1 }, .lockWrite .stop) else none
  | .report => if 0 < g.guards then some (g, .lockWrite .report) else none
  | .unresolved => if 0 < g.guards then some (g, .lockShared) else none

namespace State

/-- No static is made, and the handler is not installed. -/
def init : State := ⟨⟨false, false, false, 0, []⟩, []⟩

def step (s : State) : Event → Option State
  | .spawn => some { s with threads := s.threads ++ [⟨.idle, none⟩] }
  | .call i call =>
    if s.threads[i]? = some ⟨.idle, none⟩ then
      (call.begin s.shared).map fun out => ⟨out.1, s.threads.set i ⟨out.2, none⟩⟩
    else none
  | .signal i =>
    match s.threads[i]? with
    | some ⟨phase, none⟩ =>
      if s.shared.installed then some { s with threads := s.threads.set i ⟨phase, some .entered⟩ }
      else none
    | _ => none
  | .advance i answer =>
    match s.threads[i]? with
    | some ⟨phase, none⟩ =>
      (phase.advance s.shared s.threads answer).map fun out =>
        ⟨out.1, s.threads.set i ⟨out.2, none⟩⟩
    | _ => none
  | .handle i skip =>
    match s.threads[i]? with
    | some ⟨phase, some handler⟩ =>
      let out := handler.advance s.shared s.threads skip
      some ⟨out.1, s.threads.set i ⟨phase, out.2⟩⟩
    | _ => none

end State

/-! ### The invariant -/

/-- After `PROFILER` has been made. -/
def Phase.needsProfiler : Phase → Bool
  | .idle | .forceProfiler | .initProfiler => false
  | _ => true

/-- After both have been made. -/
def Phase.needsBoth : Phase → Bool
  | .idle | .forceProfiler | .initProfiler | .lockRead | .forceUnwinder | .initUnwinder => false
  | _ => true

def Shared.Both (g : Shared) : Prop := g.profilerReady = true ∧ g.unwinderReady = true

/-- What is made where the thread is. -/
structure Ready (g : Shared) (t : Thread) : Prop where
  profiler : t.phase.needsProfiler = true → g.profilerReady = true
  both : t.phase.needsBoth = true → g.Both
  handler : t.handler.isSome = true → g.Both

def readers (threads : List Thread) : ℕ := threads.countP fun t => t.phase.reads

/-- The writers of `PROFILER`, threads and handlers. -/
def writers (threads : List Thread) : ℕ :=
  (threads.countP fun t => t.phase.writes) + threads.countP Thread.handlerWrites

structure Inv (g : Shared) (threads : List Thread) : Prop where
  one : writers threads ≤ 1
  exclusive : 0 < writers threads → readers threads = 0
  ready : ∀ t ∈ threads, Ready g t
  installed : g.installed = true → g.Both
  guards : 0 < g.guards → g.Both
  faults : g.faults = []

theorem inv_init : Inv State.init.shared State.init.threads where
  one := Nat.zero_le 1
  exclusive h := absurd h (lt_irrefl 0)
  ready _ ht := absurd ht List.not_mem_nil
  installed h := by cases h
  guards h := absurd h (lt_irrefl 0)
  faults := rfl

variable {g g' : Shared} {threads threads' : List Thread}

theorem Inv.perm (h : Inv g threads) (hperm : threads.Perm threads') : Inv g threads' := by
  have hwriters : writers threads' = writers threads := by
    rw [writers, writers, hperm.countP_eq, hperm.countP_eq]
  have hreaders : readers threads' = readers threads := by rw [readers, readers, hperm.countP_eq]
  refine ⟨?_, ?_, fun t ht => h.ready t (hperm.mem_iff.mpr ht), h.installed, h.guards, h.faults⟩
  · rw [hwriters]
    exact h.one
  · rw [hwriters, hreaders]
    exact h.exclusive

theorem readers_cons (t : Thread) (rest : List Thread) :
    readers (t :: rest) = readers rest + t.phase.reads.toNat := by
  rw [readers, List.countP_cons, readers]
  cases t.phase.reads <;> rfl

theorem writers_cons (t : Thread) (rest : List Thread) :
    writers (t :: rest) = writers rest + (t.phase.writes.toNat + t.handlerWrites.toNat) := by
  rw [writers, List.countP_cons, List.countP_cons, writers]
  cases t.phase.writes <;> cases t.handlerWrites <;> simp <;> omega

theorem canRead_iff : canRead threads = true ↔ writers threads = 0 := by
  rw [canRead, List.all_eq_true, writers, Nat.add_eq_zero_iff, List.countP_eq_zero,
    List.countP_eq_zero]
  simp only [Bool.and_eq_true, Bool.not_eq_true', Bool.not_eq_true]
  exact forall₂_and

theorem canWrite_iff : canWrite threads = true ↔ readers threads = 0 ∧ writers threads = 0 := by
  rw [← canRead_iff, canWrite, canRead, List.all_eq_true, List.all_eq_true, readers,
    List.countP_eq_zero]
  simp only [Bool.and_eq_true, Bool.not_eq_true', Bool.not_eq_true, and_assoc]
  exact forall₂_and

theorem Ready.mono {t : Thread} (h : Ready g t)
    (hg : g.profilerReady = true → g'.profilerReady = true) (hboth : g.Both → g'.Both) :
    Ready g' t :=
  ⟨fun ht => hg (h.profiler ht), fun ht => hboth (h.both ht), fun ht => hboth (h.handler ht)⟩

/-! ### A step keeps the invariant -/

/-- A thread moves from one phase to the next: the lock it holds may change as
`hcount` says, and what is made as `hg` says. -/
theorem Inv.move {t t' : Thread} {rest : List Thread} (h : Inv g (t :: rest))
    (hone : writers (t' :: rest) ≤ 1)
    (hexclusive : 0 < writers (t' :: rest) → readers (t' :: rest) = 0)
    (hprofiler : g.profilerReady = true → g'.profilerReady = true) (hboth : g.Both → g'.Both)
    (hready : Ready g' t') (hinstalled : g'.installed = true → g'.Both)
    (hguards : 0 < g'.guards → g'.Both) (hfaults : g'.faults = []) : Inv g' (t' :: rest) where
  one := hone
  exclusive := hexclusive
  ready u hu := by
    obtain rfl | hu := List.mem_cons.mp hu
    · exact hready
    · exact (h.ready u (List.mem_cons_of_mem t hu)).mono hprofiler hboth
  installed := hinstalled
  guards := hguards
  faults := hfaults

theorem Ready.of_phase {phase : Phase}
    (hprofiler : phase.needsProfiler = true → g.profilerReady = true)
    (hboth : phase.needsBoth = true → g.Both) : Ready g ⟨phase, none⟩ :=
  ⟨hprofiler, hboth, fun h => absurd h Bool.false_ne_true⟩

/-- A step of a call keeps the invariant. -/
theorem Inv.advance {phase phase' : Phase} {rest : List Thread} {answer : Answer}
    (h : Inv g (⟨phase, none⟩ :: rest))
    (hstep : phase.advance g (⟨phase, none⟩ :: rest) answer = some (g', phase')) :
    Inv g' (⟨phase', none⟩ :: rest) := by
  have hready := h.ready _ List.mem_cons_self
  have hone := h.one
  have hexclusive := h.exclusive
  rw [writers_cons, readers_cons] at hexclusive
  rw [writers_cons] at hone
  have hfalse : ∀ {P : Prop}, false = true → P := fun hf => absurd hf Bool.false_ne_true
  -- where the locks stay as they are
  have hsame : ∀ {next : Phase} {made : Shared}, next.writes = phase.writes →
      next.reads = phase.reads → (g.profilerReady = true → made.profilerReady = true) →
      (g.Both → made.Both) → Ready made ⟨next, none⟩ → (made.installed = true → made.Both) →
      (0 < made.guards → made.Both) → made.faults = [] → Inv made (⟨next, none⟩ :: rest) := by
    intro next made hwrites hreads hprofiler hboth hnext hinstalled hguards hfaults
    refine h.move ?_ ?_ hprofiler hboth hnext hinstalled hguards hfaults
    · rw [writers_cons, hwrites]
      exact hone
    · rw [writers_cons, readers_cons, hwrites, hreads]
      exact hexclusive
  have hgoto : ∀ {next : Phase}, next.writes = phase.writes → next.reads = phase.reads →
      Ready g ⟨next, none⟩ → Inv g (⟨next, none⟩ :: rest) := fun hwrites hreads hnext =>
    hsame hwrites hreads id id hnext h.installed h.guards h.faults
  -- where a lock is taken or given back
  have hlocks : ∀ {next : Phase}, Ready g ⟨next, none⟩ → writers (⟨next, none⟩ :: rest) ≤ 1 →
      (0 < writers (⟨next, none⟩ :: rest) → readers (⟨next, none⟩ :: rest) = 0) →
      Inv g (⟨next, none⟩ :: rest) := fun hnext hone hexclusive =>
    h.move hone hexclusive id id hnext h.installed h.guards h.faults
  have htake : ∀ {next : Phase}, Ready g ⟨next, none⟩ → next.writes = phase.writes →
      canRead (⟨phase, none⟩ :: rest) = true → Inv g (⟨next, none⟩ :: rest) := by
    intro next hnext hwrites hcan
    have hzero := canRead_iff.mp hcan
    rw [writers_cons] at hzero
    refine hlocks hnext ?_ ?_
    · rw [writers_cons, hwrites]
      exact hone
    · rw [writers_cons, hwrites]
      intro hpos
      exact absurd hzero hpos.ne'
  have hgive : ∀ {next : Phase}, Ready g ⟨next, none⟩ → next.writes = phase.writes →
      next.reads = false → Inv g (⟨next, none⟩ :: rest) := by
    intro next hnext hwrites hreads
    refine hlocks hnext ?_ ?_
    · rw [writers_cons, hwrites]
      exact hone
    · rw [writers_cons, readers_cons, hwrites, hreads]
      intro hpos
      have hzero := hexclusive hpos
      show readers rest + 0 = 0
      omega
  cases phase with
  | idle => cases hstep
  | forceProfiler =>
    simp only [Phase.advance] at hstep
    split at hstep
    · rename_i hprofiler
      obtain ⟨rfl, rfl⟩ := Prod.mk.inj (Option.some.inj hstep)
      exact hgoto rfl rfl (.of_phase (fun _ => hprofiler) hfalse)
    · split at hstep
      · cases hstep
      · obtain ⟨rfl, rfl⟩ := Prod.mk.inj (Option.some.inj hstep)
        exact hgoto rfl rfl (.of_phase hfalse hfalse)
  | initProfiler =>
    obtain ⟨rfl, rfl⟩ := Prod.mk.inj (Option.some.inj hstep)
    refine hsame rfl rfl (fun _ => rfl) (fun hboth => ⟨rfl, hboth.2⟩)
      (.of_phase (fun _ => rfl) hfalse) (fun hi => ⟨rfl, (h.installed hi).2⟩)
      (fun hg => ⟨rfl, (h.guards hg).2⟩) h.faults
  | lockRead =>
    obtain ⟨hcan, hstep⟩ := Option.ite_none_right_eq_some.mp hstep
    obtain ⟨rfl, rfl⟩ := Prod.mk.inj (Option.some.inj hstep)
    exact htake (.of_phase (fun _ => hready.profiler rfl) hfalse) rfl hcan
  | forceUnwinder =>
    simp only [Phase.advance] at hstep
    split at hstep
    · rename_i hunwinder
      obtain ⟨rfl, rfl⟩ := Prod.mk.inj (Option.some.inj hstep)
      exact hgoto rfl rfl (.of_phase (fun _ => hready.profiler rfl)
        fun _ => ⟨hready.profiler rfl, hunwinder⟩)
    · split at hstep
      · cases hstep
      · obtain ⟨rfl, rfl⟩ := Prod.mk.inj (Option.some.inj hstep)
        exact hgoto rfl rfl (.of_phase (fun _ => hready.profiler rfl) hfalse)
  | initUnwinder =>
    obtain ⟨rfl, rfl⟩ := Prod.mk.inj (Option.some.inj hstep)
    have hprofiler := hready.profiler rfl
    exact hsame rfl rfl id (fun hboth => ⟨hboth.1, rfl⟩)
      (.of_phase (fun _ => hprofiler) fun _ => ⟨hprofiler, rfl⟩)
      (fun hi => ⟨(h.installed hi).1, rfl⟩) (fun hg => ⟨(h.guards hg).1, rfl⟩) h.faults
  | readUnwinder =>
    obtain ⟨_, hstep⟩ := Option.ite_none_right_eq_some.mp hstep
    obtain ⟨rfl, rfl⟩ := Prod.mk.inj (Option.some.inj hstep)
    exact hgoto rfl rfl (.of_phase (fun _ => hready.profiler rfl) fun _ => hready.both rfl)
  | dropUnwinder =>
    obtain ⟨rfl, rfl⟩ := Prod.mk.inj (Option.some.inj hstep)
    exact hgoto rfl rfl (.of_phase (fun _ => hready.profiler rfl) fun _ => hready.both rfl)
  | unlockRead =>
    obtain ⟨rfl, rfl⟩ := Prod.mk.inj (Option.some.inj hstep)
    exact hgive (.of_phase (fun _ => hready.profiler rfl) fun _ => hready.both rfl) rfl rfl
  | lockWrite task =>
    obtain ⟨hcan, hstep⟩ := Option.ite_none_right_eq_some.mp hstep
    obtain ⟨rfl, rfl⟩ := Prod.mk.inj (Option.some.inj hstep)
    obtain ⟨hreaders, hwriters⟩ := canWrite_iff.mp hcan
    rw [writers_cons] at hwriters
    rw [readers_cons] at hreaders
    refine hlocks (.of_phase (fun _ => hready.profiler rfl) fun _ => hready.both rfl) ?_ ?_
    · rw [writers_cons]
      show writers rest + (1 + 0) ≤ 1
      omega
    · intro _
      rw [readers_cons]
      exact hreaders
  | critical task =>
    have hboth := hready.both rfl
    have hnext : ∀ {made : Shared}, made.Both → Ready made ⟨.unlockWrite, none⟩ := fun hmade =>
      .of_phase (fun _ => hmade.1) fun _ => hmade
    cases task with
    | start =>
      cases answer with
      | ok =>
        obtain ⟨rfl, rfl⟩ := Prod.mk.inj (Option.some.inj hstep)
        exact hsame rfl rfl id id (hnext hboth) (fun _ => hboth) (fun _ => hboth) h.faults
      | refused =>
        obtain ⟨rfl, rfl⟩ := Prod.mk.inj (Option.some.inj hstep)
        exact hgoto rfl rfl (hnext hboth)
      | panics =>
        obtain ⟨rfl, rfl⟩ := Prod.mk.inj (Option.some.inj hstep)
        exact hsame rfl rfl id id (hnext hboth) (fun _ => hboth) (fun _ => hboth) h.faults
    | stop =>
      obtain ⟨rfl, rfl⟩ := Prod.mk.inj (Option.some.inj hstep)
      split
      · exact hsame rfl rfl id id (hnext hboth) hfalse (fun _ => hboth) h.faults
      · exact hgoto rfl rfl (hnext hboth)
    | report =>
      obtain ⟨rfl, rfl⟩ := Prod.mk.inj (Option.some.inj hstep)
      exact hgoto rfl rfl (hnext hboth)
  | unlockWrite =>
    obtain ⟨rfl, rfl⟩ := Prod.mk.inj (Option.some.inj hstep)
    have hless : writers rest + (1 + 0) ≤ 1 := hone
    refine hlocks (.of_phase hfalse hfalse) ?_ ?_
    · rw [writers_cons]
      show writers rest + (0 + 0) ≤ 1
      omega
    · rw [writers_cons]
      intro hpos
      have hpos : 0 < writers rest + (0 + 0) := hpos
      omega
  | lockShared =>
    obtain ⟨hcan, hstep⟩ := Option.ite_none_right_eq_some.mp hstep
    obtain ⟨rfl, rfl⟩ := Prod.mk.inj (Option.some.inj hstep)
    exact htake (.of_phase (fun _ => hready.profiler rfl) fun _ => hready.both rfl) rfl hcan
  | shared =>
    obtain ⟨rfl, rfl⟩ := Prod.mk.inj (Option.some.inj hstep)
    exact hgive (.of_phase hfalse hfalse) rfl rfl

/-- **The lock of the unwinder is free** for the handler that holds the lock of
the profiler: whoever holds the former holds the latter. -/
theorem Inv.canWriteUnwinder {phase : Phase} {rest : List Thread}
    (h : Inv g (⟨phase, some .locked⟩ :: rest)) :
    canWriteUnwinder (⟨phase, some .locked⟩ :: rest) = true := by
  have hone := h.one
  have hexclusive := h.exclusive
  rw [writers_cons, readers_cons] at hexclusive
  rw [writers_cons] at hone
  have hzero : readers rest + phase.reads.toNat = 0 := hexclusive (Nat.succ_pos _)
  have hsum : writers rest + (phase.writes.toNat + 1) ≤ 1 := hone
  rw [Locks.canWriteUnwinder, List.all_cons, Bool.and_eq_true, List.all_eq_true]
  refine ⟨?_, fun t ht => ?_⟩
  · cases phase with
    | dropUnwinder =>
      have hreads : readers rest + 1 = 0 := hzero
      omega
    | _ => rfl
  · rw [Bool.and_eq_true, bne_iff_ne, bne_iff_ne]
    constructor
    · -- a thread that has read the unwinder is a reader of the profiler
      intro hphase
      have hpos : 0 < readers rest := List.countP_pos_iff.mpr ⟨t, ht, by rw [hphase]; rfl⟩
      omega
    · -- a handler that unwinds is a writer of the profiler
      intro hhandler
      have hpos : 0 < rest.countP Thread.handlerWrites :=
        List.countP_pos_iff.mpr ⟨t, ht, by rw [Thread.handlerWrites, hhandler]; rfl⟩
      rw [writers] at hsum
      omega

/-- A step of the handler keeps the invariant. -/
theorem Inv.handle {phase : Phase} {handler : Handler} {rest : List Thread} {skip : Bool}
    (h : Inv g (⟨phase, some handler⟩ :: rest)) :
    Inv (handler.advance g (⟨phase, some handler⟩ :: rest) skip).1
      (⟨phase, (handler.advance g (⟨phase, some handler⟩ :: rest) skip).2⟩ :: rest) := by
  have hready := h.ready _ List.mem_cons_self
  have hboth : g.Both := hready.handler rfl
  have hone := h.one
  have hexclusive := h.exclusive
  rw [writers_cons, readers_cons] at hexclusive
  rw [writers_cons] at hone
  -- the handler may change who writes, and nothing else
  have hmove : ∀ {next : Option Handler},
      writers (⟨phase, next⟩ :: rest) ≤ 1 →
      (0 < writers (⟨phase, next⟩ :: rest) → readers (⟨phase, next⟩ :: rest) = 0) →
      Inv g (⟨phase, next⟩ :: rest) := fun hone hexclusive =>
    h.move hone hexclusive id id ⟨hready.profiler, hready.both, fun _ => hboth⟩ h.installed h.guards
      h.faults
  have hsame : ∀ {next : Option Handler},
      (next.any Handler.writes).toNat ≤ handler.writes.toNat → Inv g (⟨phase, next⟩ :: rest) := by
    intro next hle
    have hone : writers rest + (phase.writes.toNat + handler.writes.toNat) ≤ 1 := hone
    refine hmove ?_ ?_
    · rw [writers_cons]
      show writers rest + (phase.writes.toNat + (next.any Handler.writes).toNat) ≤ 1
      omega
    · rw [writers_cons, readers_cons]
      intro hpos
      have hpos : 0 < writers rest + (phase.writes.toNat + (next.any Handler.writes).toNat) := hpos
      refine hexclusive ?_
      show 0 < writers rest + (phase.writes.toNat + handler.writes.toNat)
      omega
  cases handler with
  | entered =>
    simp only [Handler.advance, hboth.1, Bool.not_true, Bool.false_eq_true, if_false]
    split
    · rename_i hcan
      -- `try_write` succeeds: nobody held the lock
      obtain ⟨hreaders, hwriters⟩ := canWrite_iff.mp hcan
      rw [writers_cons] at hwriters
      have hzero : writers rest + (phase.writes.toNat + 0) = 0 := hwriters
      refine hmove ?_ fun _ => hreaders
      rw [writers_cons]
      show writers rest + (phase.writes.toNat + 1) ≤ 1
      omega
    · exact hsame (Nat.zero_le _)
  | locked =>
    simp only [Handler.advance, hboth.2, h.canWriteUnwinder, Bool.not_true, Bool.false_eq_true,
      if_false, if_true]
    -- the lock of the unwinder is free, as it is only held under that of the profiler
    cases skip with
    | true => exact hsame (le_refl 1)
    | false => exact hsame (le_refl 1)
  | unwinding => exact hsame (le_refl 1)
  | leaving => exact hsame (Nat.zero_le _)

/-! ### Runs -/

/-- The `i`th thread and the others. -/
theorem perm_set {i : ℕ} {t : Thread} (hi : threads[i]? = some t) (t' : Thread) :
    threads.Perm (t :: threads.eraseIdx i) ∧
      (threads.set i t').Perm (t' :: threads.eraseIdx i) := by
  obtain ⟨hlt, rfl⟩ := List.getElem?_eq_some_iff.mp hi
  exact ⟨(List.getElem_cons_eraseIdx_perm hlt).symm, List.set_perm_cons_eraseIdx hlt _⟩

theorem advance_perm (hperm : threads.Perm threads') (answer : Answer) (phase : Phase) :
    phase.advance g threads answer = phase.advance g threads' answer := by
  have hread : canRead threads = canRead threads' := hperm.all_eq
  have hwrite : Locks.canWrite threads = Locks.canWrite threads' := hperm.all_eq
  have hunwinder : canReadUnwinder threads = canReadUnwinder threads' := hperm.all_eq
  cases phase with
  | critical task => cases task <;> rfl
  | _ => simp only [Phase.advance, hread, hwrite, hunwinder, hperm.any_eq]

theorem handler_advance_perm (hperm : threads.Perm threads') (skip : Bool) (handler : Handler) :
    handler.advance g threads skip = handler.advance g threads' skip := by
  have hwrite : Locks.canWrite threads = Locks.canWrite threads' := hperm.all_eq
  have hunwinder : Locks.canWriteUnwinder threads = Locks.canWriteUnwinder threads' :=
    hperm.all_eq
  cases handler with
  | _ => simp only [Handler.advance, hwrite, hunwinder]

namespace State

variable {s s' : State}

/-- The invariant of a state. -/
def Inv (s : State) : Prop := Locks.Inv s.shared s.threads

theorem Inv.begin {call : Call} {phase : Phase} {rest : List Thread}
    (h : Locks.Inv g (⟨.idle, none⟩ :: rest)) (hbegin : call.begin g = some (g', phase)) :
    Locks.Inv g' (⟨phase, none⟩ :: rest) := by
  -- a call that neither writes nor reads changes no lock, so only what it needs ready is asked
  have hmove : ∀ {made : Shared} {next : Phase}, next.writes = false → next.reads = false →
      Ready made ⟨next, none⟩ → made.profilerReady = g.profilerReady →
      made.unwinderReady = g.unwinderReady → made.installed = g.installed →
      made.guards ≤ g.guards → made.faults = g.faults → Locks.Inv made (⟨next, none⟩ :: rest) := by
    intro made next hwrites hreads hready hprofiler hunwinder hinstalled hguards hfaults
    have hboth : g.Both → made.Both := fun hb => ⟨hprofiler.trans hb.1, hunwinder.trans hb.2⟩
    have hone := h.one
    have hexclusive := h.exclusive
    rw [writers_cons, readers_cons] at hexclusive
    rw [writers_cons] at hone
    refine h.move ?_ ?_ (fun hp => hprofiler.trans hp) hboth hready
      (fun hi => hboth (h.installed (hinstalled.symm.trans hi)))
      (fun hg => hboth (h.guards (hg.trans_le hguards))) (hfaults.trans h.faults)
    · rw [writers_cons, hwrites]
      exact hone
    · rw [writers_cons, readers_cons, hwrites, hreads]
      exact hexclusive
  cases call with
  | build =>
    obtain ⟨rfl, rfl⟩ := Prod.mk.inj (Option.some.inj hbegin)
    refine hmove rfl rfl (.of_phase ?_ ?_) rfl rfl rfl (le_refl _) rfl
    · exact fun hf => absurd hf Bool.false_ne_true
    · exact fun hf => absurd hf Bool.false_ne_true
  | drop =>
    obtain ⟨hpos, hbegin⟩ := Option.ite_none_right_eq_some.mp hbegin
    obtain ⟨rfl, rfl⟩ := Prod.mk.inj (Option.some.inj hbegin)
    -- a guard exists only once both statics are ready
    have hboth := h.guards hpos
    exact hmove rfl rfl (.of_phase (fun _ => hboth.1) fun _ => hboth) rfl rfl rfl (Nat.sub_le _ _)
      rfl
  | report =>
    obtain ⟨hpos, hbegin⟩ := Option.ite_none_right_eq_some.mp hbegin
    obtain ⟨rfl, rfl⟩ := Prod.mk.inj (Option.some.inj hbegin)
    have hboth := h.guards hpos
    exact hmove rfl rfl (.of_phase (fun _ => hboth.1) fun _ => hboth) rfl rfl rfl (le_refl _) rfl
  | unresolved =>
    obtain ⟨hpos, hbegin⟩ := Option.ite_none_right_eq_some.mp hbegin
    obtain ⟨rfl, rfl⟩ := Prod.mk.inj (Option.some.inj hbegin)
    have hboth := h.guards hpos
    exact hmove rfl rfl (.of_phase (fun _ => hboth.1) fun _ => hboth) rfl rfl rfl (le_refl _) rfl

/-- Everything a step can do keeps the invariant. -/
theorem Inv.step {e : Event} (h : Inv s) (hstep : s.step e = some s') : Inv s' := by
  cases e with
  | spawn =>
    obtain rfl := Option.some.inj hstep
    -- a new thread holds nothing
    have hcons : Locks.Inv s.shared (⟨.idle, none⟩ :: s.threads) := by
      refine ⟨?_, ?_, ?_, h.installed, h.guards, h.faults⟩
      · rw [writers_cons]
        exact h.one
      · rw [writers_cons, readers_cons]
        exact h.exclusive
      · refine List.forall_mem_cons.mpr ⟨.of_phase ?_ ?_, h.ready⟩
        · exact fun hf => absurd hf Bool.false_ne_true
        · exact fun hf => absurd hf Bool.false_ne_true
    exact hcons.perm (List.perm_append_singleton _ _).symm
  | call i call =>
    obtain ⟨hi, hstep⟩ := Option.ite_none_right_eq_some.mp hstep
    obtain ⟨out, hout, rfl⟩ := Option.map_eq_some_iff.mp hstep
    -- the thread is moved to the front of the list, and back
    obtain ⟨hold, hnew⟩ := perm_set hi ⟨out.2, none⟩
    exact (begin (h.perm hold) hout).perm hnew.symm
  | signal i =>
    simp only [State.step] at hstep
    split at hstep
    · rename_i phase hi
      -- the handler is installed, so both statics are made; it holds no lock yet
      obtain ⟨hinstalled, hstep⟩ := Option.ite_none_right_eq_some.mp hstep
      obtain rfl := Option.some.inj hstep
      obtain ⟨hold, hnew⟩ := perm_set hi ⟨phase, some .entered⟩
      have hperm := h.perm hold
      have hready := hperm.ready _ List.mem_cons_self
      have hone := hperm.one
      have hexclusive := hperm.exclusive
      rw [writers_cons, readers_cons] at hexclusive
      rw [writers_cons] at hone
      refine Locks.Inv.perm (hperm.move ?_ ?_ id id ?_ h.installed h.guards h.faults) hnew.symm
      · rw [writers_cons]
        exact hone
      · rw [writers_cons, readers_cons]
        exact hexclusive
      · exact ⟨hready.profiler, hready.both, fun _ => h.installed hinstalled⟩
    · cases hstep
  | advance i answer =>
    simp only [State.step] at hstep
    split at hstep
    · rename_i phase hi
      obtain ⟨out, hout, rfl⟩ := Option.map_eq_some_iff.mp hstep
      obtain ⟨hold, hnew⟩ := perm_set hi ⟨out.2, none⟩
      rw [advance_perm hold] at hout
      exact ((h.perm hold).advance hout).perm hnew.symm
    · cases hstep
  | handle i skip =>
    simp only [State.step] at hstep
    split at hstep
    · rename_i phase handler hi
      obtain rfl := Option.some.inj hstep
      rw [State.Inv]
      obtain ⟨hold, hnew⟩ := perm_set hi
        ⟨phase, (handler.advance s.shared s.threads skip).2⟩
      refine Locks.Inv.perm ?_ hnew.symm
      rw [handler_advance_perm hold]
      exact (h.perm hold).handle
    · cases hstep

theorem inv_of_run {es : List Event} (hrun : run step init es = some s) : Inv s :=
  run_invariant (fun _ _ _ h hstep => h.step hstep) inv_init hrun

/-- **The handler never fails to unwind for the lock.**  In every run, on any
number of threads that the handler may interrupt at any time: both statics are
made before the handler is entered, it never makes one itself, and
`UNWINDER.try_write()` succeeds whenever it is reached; at most one thread or
handler holds the lock of the profiler for writing. -/
theorem never_faults {es : List Event} (hrun : run step init es = some s) :
    s.shared.faults = [] ∧ writers s.threads ≤ 1 ∧
    (∀ t ∈ s.threads, t.handler.isSome = true →
      s.shared.profilerReady = true ∧ s.shared.unwinderReady = true) ∧
    ∀ t ∈ s.threads, t.handler = some .locked → canWriteUnwinder s.threads = true := by
  have h := inv_of_run hrun
  refine ⟨h.faults, h.one, fun t ht hhandler => (h.ready t ht).handler hhandler,
    fun t ht hlocked => ?_⟩
  obtain ⟨i, hi⟩ := List.mem_iff_getElem?.mp ht
  have hperm := (perm_set hi t).1
  obtain ⟨phase, handler⟩ := t
  obtain rfl : handler = some .locked := hlocked
  rw [Locks.canWriteUnwinder, hperm.all_eq]
  exact (h.perm hperm).canWriteUnwinder

/-- A thread builds, while another waits to; both are interrupted. -/
def interrupted : List Event :=
  [.spawn, .spawn, .call 0 .build, .call 1 .build] ++
    List.replicate 11 (.advance 0 .ok) ++ [.advance 1 .ok, .signal 0, .signal 1, .handle 0 false]

theorem never_faults_interrupted :
    run step init interrupted = some ⟨⟨true, true, true, 1, []⟩,
      [⟨.idle, some .locked⟩, ⟨.lockRead, some .entered⟩]⟩ ∧
    canWriteUnwinder [⟨.idle, some .locked⟩, ⟨.lockRead, some .entered⟩] = true :=
  ⟨rfl, (@never_faults _ interrupted rfl).2.2.2 _ List.mem_cons_self rfl⟩

end State

/-! ### No call waits for ever -/

/-- How many steps of a call are left at most. -/
def Phase.rank : Phase → ℕ
  | .idle => 0
  | .unlockWrite | .shared => 1
  | .critical _ | .lockShared => 2
  | .lockWrite _ => 3
  | .unlockRead => 4
  | .dropUnwinder => 5
  | .readUnwinder => 6
  | .initUnwinder => 7
  | .forceUnwinder => 8
  | .lockRead => 9
  | .initProfiler => 10
  | .forceProfiler => 11

def Handler.rank : Handler → ℕ
  | .leaving => 1
  | .unwinding => 2
  | .locked => 3
  | .entered => 4

def Thread.rank (t : Thread) : ℕ := t.phase.rank + (t.handler.map Handler.rank).getD 0

def State.rank (s : State) : ℕ := (s.threads.map Thread.rank).sum

/-- The event adds no call, no signal and no thread. -/
def Event.goesOn : Event → Bool
  | .advance _ _ | .handle _ _ => true
  | _ => false

/-- No call is in progress. -/
def State.AtRest (s : State) : Prop := ∀ t ∈ s.threads, t = ⟨.idle, none⟩

theorem Phase.advance_lowers {phase phase' : Phase} {answer : Answer}
    (h : phase.advance g threads answer = some (g', phase')) : phase'.rank < phase.rank := by
  cases phase with
  | critical task =>
    cases task with
    | start =>
      cases answer with
      | _ =>
        obtain ⟨rfl, rfl⟩ := Prod.mk.inj (Option.some.inj h)
        decide
    | _ =>
      obtain ⟨rfl, rfl⟩ := Prod.mk.inj (Option.some.inj h)
      exact Nat.lt_succ_self 1
  | forceProfiler | forceUnwinder =>
    -- a static is made by the first to come; the others wait, which is no step
    simp only [Phase.advance] at h
    split at h
    · obtain ⟨rfl, rfl⟩ := Prod.mk.inj (Option.some.inj h)
      decide
    · split at h
      · cases h
      · obtain ⟨rfl, rfl⟩ := Prod.mk.inj (Option.some.inj h)
        decide
  | lockRead | readUnwinder | lockShared =>
    obtain ⟨_, h⟩ := Option.ite_none_right_eq_some.mp h
    obtain ⟨rfl, rfl⟩ := Prod.mk.inj (Option.some.inj h)
    decide
  | lockWrite task =>
    obtain ⟨_, h⟩ := Option.ite_none_right_eq_some.mp h
    obtain ⟨rfl, rfl⟩ := Prod.mk.inj (Option.some.inj h)
    exact Nat.lt_succ_self 2
  | idle => cases h
  | _ =>
    obtain ⟨rfl, rfl⟩ := Prod.mk.inj (Option.some.inj h)
    decide

theorem Handler.advance_lowers (g : Shared) (threads : List Thread) (skip : Bool)
    (handler : Handler) :
    (((handler.advance g threads skip).2).map Handler.rank).getD 0 < handler.rank := by
  cases handler with
  | entered =>
    rw [Handler.advance]
    split
    · exact Nat.zero_lt_succ 3
    · split
      · exact Nat.lt_succ_self 3
      · exact Nat.zero_lt_succ 3
  | locked =>
    -- the handler leaves at once, or unwinds first when the unwinder is there
    have hleaving : Handler.leaving.rank < Handler.locked.rank := by decide
    rw [Handler.advance]
    split
    · exact hleaving
    · split
      · exact hleaving
      · split
        · exact Nat.lt_succ_self 2
        · exact hleaving
  | unwinding => exact Nat.lt_succ_self 1
  | leaving => exact Nat.lt_succ_self 0

/-- Where a call never waits. -/
def Phase.free : Phase → Bool
  | .initProfiler | .initUnwinder | .dropUnwinder | .unlockRead | .critical _ | .unlockWrite
  | .shared => true
  | _ => false

theorem Phase.advance_free {phase : Phase} (h : phase.free = true) (g : Shared)
    (threads : List Thread) (answer : Answer) :
    ∃ out, phase.advance g threads answer = some out := by
  cases phase with
  | critical task =>
    cases task with
    | start => cases answer <;> exact ⟨_, rfl⟩
    | _ => exact ⟨_, rfl⟩
  | idle | forceProfiler | lockRead | forceUnwinder | readUnwinder | lockWrite | lockShared =>
    cases h
  | _ => exact ⟨_, rfl⟩

section Waiting

variable (hfree : ∀ t ∈ threads, ¬ t.phase.free = true)
include hfree

theorem phase_ne_of_free {phase : Phase} (hphase : phase.free = true) :
    ∀ t ∈ threads, t.phase ≠ phase :=
  fun t ht heq => hfree t ht (heq ▸ hphase)

theorem any_phase_eq_false {phase : Phase} (hphase : phase.free = true) :
    (threads.any fun t => t.phase == phase) = false := by
  rw [List.any_eq_false]
  intro t ht heq
  exact phase_ne_of_free hfree hphase t ht (beq_iff_eq.mp heq)

/-- Whoever holds the lock for writing never waits. -/
theorem writers_eq_zero (hnone : ∀ t ∈ threads, t.handler = none) : writers threads = 0 := by
  rw [writers, Nat.add_eq_zero_iff, List.countP_eq_zero, List.countP_eq_zero]
  refine ⟨fun t ht hwrites => ?_, fun t ht => ?_⟩
  · refine hfree t ht ?_
    cases hphase : t.phase with
    | critical task => rfl
    | unlockWrite => rfl
    | _ =>
      rw [hphase] at hwrites
      cases hwrites
  · rw [Thread.handlerWrites, hnone t ht]
    exact Bool.false_ne_true

/-- Whoever holds it for reading can only wait for the unwinder. -/
theorem readers_eq_zero
    (hwaits : ∀ t ∈ threads, t.phase ≠ .forceUnwinder ∧ t.phase ≠ .readUnwinder) :
    readers threads = 0 := by
  refine List.countP_eq_zero.mpr fun t ht hreads => ?_
  cases hphase : t.phase with
  | forceUnwinder => exact (hwaits t ht).1 hphase
  | readUnwinder => exact (hwaits t ht).2 hphase
  | initUnwinder | dropUnwinder | unlockRead | shared =>
    exact phase_ne_of_free hfree rfl t ht hphase
  | _ =>
    rw [hphase] at hreads
    cases hreads

end Waiting

/-- **Somebody can go on**: where no handler runs and no thread is where it never
waits, nobody holds what is waited for, but for threads that go on themselves. -/
theorem exists_advance (hrest : ∃ t ∈ threads, t.phase ≠ .idle)
    (hnone : ∀ t ∈ threads, t.handler = none) (answer : Answer) :
    ∃ t ∈ threads, ∃ out, t.phase.advance g threads answer = some out := by
  by_cases hfree : ∃ t ∈ threads, t.phase.free = true
  · obtain ⟨t, ht, hphase⟩ := hfree
    exact ⟨t, ht, t.phase.advance_free hphase g threads answer⟩
  push Not at hfree
  have hwriters : writers threads = 0 := writers_eq_zero hfree hnone
  have hread : canRead threads = true := canRead_iff.mpr hwriters
  have hunwinder : canReadUnwinder threads = true := by
    rw [canReadUnwinder, List.all_eq_true]
    intro t ht
    rw [hnone t ht]
    rfl
  -- nobody makes a static
  have hprofiler : (threads.any fun t => t.phase == .initProfiler) = false :=
    any_phase_eq_false hfree rfl
  have hmaking : (threads.any fun t => t.phase == .initUnwinder) = false :=
    any_phase_eq_false hfree rfl
  have hforce : ∀ {g : Shared}, ∃ out,
      Phase.forceUnwinder.advance g threads answer = some out := by
    intro g
    simp only [Phase.advance, hmaking, Bool.false_eq_true, if_false]
    split <;> exact ⟨_, rfl⟩
  have hreadUnwinder : ∃ out, Phase.readUnwinder.advance g threads answer = some out := by
    simp only [Phase.advance, hunwinder, if_true]
    exact ⟨_, rfl⟩
  by_cases hreaders : ∃ t ∈ threads, t.phase = .forceUnwinder ∨ t.phase = .readUnwinder
  · obtain ⟨t, ht, hphase | hphase⟩ := hreaders
    · exact ⟨t, ht, hphase ▸ hforce⟩
    · exact ⟨t, ht, hphase ▸ hreadUnwinder⟩
  push Not at hreaders
  -- nobody holds the lock any more
  have hwrite : canWrite threads = true :=
    canWrite_iff.mpr ⟨readers_eq_zero hfree hreaders, hwriters⟩
  obtain ⟨t, ht, hidle⟩ := hrest
  refine ⟨t, ht, ?_⟩
  cases hphase : t.phase with
  | idle => exact absurd hphase hidle
  | forceProfiler =>
    simp only [Phase.advance, hprofiler, Bool.false_eq_true, if_false]
    split <;> exact ⟨_, rfl⟩
  | lockRead | lockShared =>
    simp only [Phase.advance, hread, if_true]
    exact ⟨_, rfl⟩
  | forceUnwinder => exact hforce
  | readUnwinder => exact hreadUnwinder
  | lockWrite task =>
    simp only [Phase.advance, hwrite, if_true]
    exact ⟨_, rfl⟩
  | _ => exact absurd hphase (phase_ne_of_free hfree rfl t ht)

namespace State

variable {s s' : State}

theorem rank_set {i : ℕ} {t t' : Thread} (hi : s.threads[i]? = some t) (hlt : t'.rank < t.rank) :
    ((s.threads.set i t').map Thread.rank).sum < s.rank := by
  obtain ⟨hold, hnew⟩ := perm_set hi t'
  rw [rank, (hold.map _).sum_eq, (hnew.map _).sum_eq, List.map_cons, List.map_cons, List.sum_cons,
    List.sum_cons]
  omega

/-- A step that adds nothing lowers the rank. -/
theorem step_lowers {e : Event} (he : e.goesOn = true) (hstep : s.step e = some s') :
    s'.rank < s.rank := by
  cases e with
  | advance i answer =>
    simp only [State.step] at hstep
    split at hstep
    · rename_i phase hi
      obtain ⟨out, hout, rfl⟩ := Option.map_eq_some_iff.mp hstep
      exact rank_set hi (Nat.add_lt_add_right (Phase.advance_lowers hout) _)
    · cases hstep
  | handle i skip =>
    simp only [State.step] at hstep
    split at hstep
    · rename_i phase handler hi
      obtain rfl := Option.some.inj hstep
      exact rank_set hi (Nat.add_lt_add_left (Handler.advance_lowers _ _ skip handler) _)
    · cases hstep
  | _ => cases he

/-- Until all calls have come to their end, one can go on. -/
theorem exists_step (hrest : ¬ s.AtRest) :
    ∃ e s', e.goesOn = true ∧ s.step e = some s' := by
  -- a handler never waits, so one that is active goes on
  by_cases hhandler : ∃ t ∈ s.threads, t.handler.isSome = true
  · obtain ⟨⟨phase, handler⟩, ht, hsome⟩ := hhandler
    obtain ⟨handler, rfl⟩ := Option.isSome_iff_exists.mp hsome
    obtain ⟨i, hi⟩ := List.mem_iff_getElem?.mp ht
    have hstep : ∃ s', s.step (.handle i false) = some s' := by
      simp only [State.step, hi]
      exact ⟨_, rfl⟩
    obtain ⟨s', hs'⟩ := hstep
    exact ⟨_, s', rfl, hs'⟩
  · -- none is active: some thread is in a call, and one of those can advance
    push Not at hhandler
    have hnone : ∀ t ∈ s.threads, t.handler = none := fun t ht =>
      Option.not_isSome_iff_eq_none.mp (hhandler t ht)
    have hphase : ∃ t ∈ s.threads, t.phase ≠ .idle := by
      rw [AtRest] at hrest
      push Not at hrest
      obtain ⟨⟨phase, handler⟩, ht, hne⟩ := hrest
      refine ⟨_, ht, ?_⟩
      rintro rfl
      obtain rfl : handler = none := hnone _ ht
      exact hne rfl
    obtain ⟨⟨phase, handler⟩, ht, out, hout⟩ := exists_advance hphase hnone .refused
    obtain rfl : handler = none := hnone _ ht
    obtain ⟨i, hi⟩ := List.mem_iff_getElem?.mp ht
    have hout : phase.advance s.shared s.threads .refused = some out := hout
    have hstep : ∃ s', s.step (.advance i .refused) = some s' := by
      simp only [State.step, hi, hout, Option.map_some]
      exact ⟨_, rfl⟩
    obtain ⟨s', hs'⟩ := hstep
    exact ⟨_, s', rfl, hs'⟩

/-- **All calls come to their end.**  From any state, as long as no call, signal
or thread is added: in whatever order the calls in progress go on, they take at
most `rank` steps, and when none can go on all have returned; and there is such
an order.  From a state that is reached no handler returns with a fault; in
others one may be the first to use a static, where the real one would make it or
wait for it. -/
theorem drains (s : State) :
    (∀ es t, (∀ e ∈ es, Event.goesOn e = true) → run step s es = some t →
      es.length ≤ s.rank ∧ ((∀ e, e.goesOn = true → step t e = none) → t.AtRest) ∧
      ∀ es₀, run step init es₀ = some s → t.shared.faults = []) ∧
    ∃ es t, (∀ e ∈ es, Event.goesOn e = true) ∧ run step s es = some t ∧ t.AtRest := by
  -- every step lowers the rank, and from a state that is not at rest there is one
  have hlowers : ∀ (s : State) (e : Event) s', e.goesOn = true → step s e = some s' →
      s'.rank < s.rank := fun _ _ _ he hstep => step_lowers he hstep
  refine ⟨fun es t hes hrun => ⟨?_, fun hstuck => ?_, fun es₀ hreached => ?_⟩, ?_⟩
  · have halong : Along step (fun _ e => e.goesOn = true) s es :=
      along_of_forall (fun e he _ => hes e he) s
    have hlength := run_length_le hlowers halong hrun
    omega
  · by_contra hrest
    obtain ⟨e, t', he, hstep⟩ := exists_step hrest
    rw [hstuck e he] at hstep
    cases hstep
  · exact (inv_of_run (run_append_eq_some.mpr ⟨s, hreached, hrun⟩)).faults
  · obtain ⟨es, t, hes, hrun, hrest⟩ := exists_run_of_progress (fun _ _ _ _ _ _ => trivial)
      hlowers (fun s _ hrest => exists_step hrest) (show True from trivial)
    exact ⟨es, t, forall_of_along hes hrun, hrun, hrest⟩

end State

end Pprof.Locks
