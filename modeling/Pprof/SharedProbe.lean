/-
Probes of several threads.

Nothing in `open_pipe` keeps two calls apart: between the first load of a
descriptor and the second store another call may load, close or store.  Two
threads that probe for the first time at once can leave the read end of one
pipe in `read_fd` and the write end of another in `write_fd`.

* `consistent_of_apart` — the pipe stays consistent as long as the steps of
  `open_pipe` are not mixed with those of other calls and the pipe has room for
  every call between its `read` and its `write`;
* `not_consistent_firstUse` — how it breaks without.
-/
import Pprof.ProbePipe

open Transition

namespace Pprof.AddrValidate

variable {slots capacity : ℕ} {s s' : State} {g g' : Shared} {c : Call} {rest calls : List Call}

/-- Either no pipe has been made, or the two descriptors are the ends of one
open pipe and nothing else is open. -/
def Consistent (g : Shared) : Prop :=
  (g.os.created = 0 ∧ g.os.descriptors = []) ∨ ∃ pipe, Joined g.os g.readFd g.writeFd pipe

theorem Early.opening (h : Early c) : c.phase.opening = false := by
  obtain hphase | ⟨_, hphase⟩ := h
  · rw [hphase]
    rfl
  · rw [hphase]
    rfl

theorem Uses.opening (h : Uses g c) : c.phase.opening = false := by
  obtain hphase | hphase | hphase | hphase := h
  · rw [hphase]
    rfl
  · rw [hphase]
    rfl
  · rw [hphase]
    rfl
  · rw [hphase]
    rfl

/-- A call inside `open_pipe` is the one of the invariant. -/
theorem Inv.opening_of_mem (h : Inv slots g calls) (hc : c ∈ calls)
    (hphase : c.phase.opening = true) : Opening g c.phase := by
  cases h with
  | closed _ hcalls =>
    rw [Early.opening (hcalls c hc)] at hphase
    cases hphase
  | opening o rest hperm hopening hrest =>
    obtain rfl | hmem := List.mem_cons.mp (hperm.mem_iff.mp hc)
    · exact hopening
    · rw [hrest c hmem] at hphase
      cases hphase
  | joined _ _ _ _ _ hcalls =>
    rw [Uses.opening (hcalls c hc)] at hphase
    cases hphase

/-- Calls never leave everything closed once a pipe has been made. -/
theorem advance_created {answer : Answer} {move : Move} (hinv : Inv slots g (c :: rest))
    (hcreated : g.os.descriptors = [] → g.os.created = 0)
    (h : c.advance capacity answer g = some (g', move)) :
    g'.os.descriptors = [] → g'.os.created = 0 := by
  have hopening := hinv.opening_of_mem (List.mem_cons_self (a := c))
  obtain ⟨hdescriptors, hsame⟩ | ⟨fd, hphase, hos⟩ | ⟨hphase, hos⟩ := advance_os h
  · rw [hdescriptors, hsame]
    exact hcreated
  · -- nothing was open before
    have hclosed : g.os.descriptors = [] := by
      obtain hphase | hphase := hphase
      · rw [hphase] at hopening
        exact hopening rfl
      · rw [hphase] at hopening
        exact hopening rfl
    rw [hos, Os.close_of_closed hclosed]
    exact hcreated
  · rw [hphase] at hopening
    rw [(Os.createPipe_joined (hopening rfl) hos).1.descriptors]
    exact fun hnil => absurd hnil (List.cons_ne_nil _ _)

/-- What runs of calls that are not in the way of each other keep. -/
structure Kept (slots : ℕ) (s : State) : Prop where
  sound : Sound slots s
  created : s.shared.os.descriptors = [] → s.shared.os.created = 0

theorem Kept.step (hslots : 1 ≤ slots) (hcapacity : CHECK_LENGTH * slots ≤ capacity)
    (h : Kept slots s) {e : Event} (hapart : apart slots s e = true)
    (hstep : s.step capacity e = some s') : Kept slots s' := by
  refine ⟨h.sound.step hslots hcapacity hapart hstep, ?_⟩
  cases e with
  | call mem addr =>
    simp only [State.step] at hstep
    split at hstep
    · obtain rfl := Option.some.inj hstep
      exact h.created
    · obtain rfl := Option.some.inj hstep
      exact h.created
  | advance i answer =>
    obtain ⟨c, shared, move, hc, hadvance, hshared, _⟩ := State.step_advance hstep
    rw [hshared]
    exact advance_created (h.sound.inv.perm (perm_eraseIdx hc)) h.created hadvance
  | close => cases hapart

/-- When no call is in progress, the descriptors are those of one pipe. -/
theorem Kept.consistent (h : Kept slots s) (hcalls : s.calls = []) : Consistent s.shared := by
  have hinv := h.sound.inv
  rw [hcalls] at hinv
  cases hinv with
  | closed hclosed _ => exact .inl ⟨h.created hclosed, hclosed⟩
  | opening c rest hperm _ _ => cases hperm.nil_eq
  | joined pipe _ hjoined _ _ _ => exact .inr ⟨pipe, hjoined⟩

/-- **When the shared pipe stays consistent**: along a run whose steps are not
in the way of other calls, with no more calls between their `read` and their
`write` than the pipe has room for, the descriptors are those of one pipe
whenever no call is in progress, every call that has returned was right, and
every call in progress comes nearer to its return with each step that is not
interrupted.  The condition is sufficient and not necessary: calls that mix with
`open_pipe` may still leave one pipe. -/
theorem consistent_of_apart (hcapacity : CHECK_LENGTH ≤ capacity) {es : List Event}
    (hrun : run (State.step capacity) .init es = some s)
    (hes : Along (State.step capacity)
      (fun s e => apart (capacity / CHECK_LENGTH) s e = true) .init es) :
    (s.calls = [] → Consistent s.shared) ∧
    (∀ r ∈ s.results, r.valid = true ↔
      r.addr ≠ 0 ∧ ∀ i < CHECK_LENGTH, r.mem.readable (r.addr + i) = true) ∧
    ∀ c ∈ s.calls, ∀ answer, s.shared.os.Free answer.readFd answer.writeFd →
      ∃ g' move, c.advance capacity answer s.shared = some (g', move) ∧
        ∀ phase, move = .goto phase →
          phase.rank < c.phase.rank ∨ (answer.interrupted = true ∧ phase = c.phase) := by
  -- the pipe has room for one probe of each slot
  have hslots : 1 ≤ capacity / CHECK_LENGTH :=
    (Nat.le_div_iff_mul_le (by decide)).mpr (by rw [Nat.one_mul]; exact hcapacity)
  have hroom : CHECK_LENGTH * (capacity / CHECK_LENGTH) ≤ capacity := Nat.mul_div_le _ _
  -- what each call has loaded stays true while the condition keeps the calls apart
  have hkept : Kept (capacity / CHECK_LENGTH) s :=
    run_invariant_along (fun _ _ _ h hapart => h.step hslots hroom hapart)
      ⟨sound_init _, fun _ => rfl⟩ hes hrun
  refine ⟨hkept.consistent, fun r hr => ?_, fun c hc answer hfree => ?_⟩
  · rw [hkept.sound.results r hr, validate_iff]
  · obtain ⟨g', move, hadvance⟩ :
        ∃ g' move, c.advance capacity answer s.shared = some (g', move) :=
      exists_advance fun _ => hfree
    refine ⟨g', move, hadvance, fun phase hmove => ?_⟩
    rw [hmove] at hadvance
    exact advance_lowers hadvance

end Pprof.AddrValidate

/-! ### Two threads -/

namespace Pprof.Given

open AddrValidate

def twoCalls : List AddrValidate.Event :=
  [.call mapped 0x7FFE00001000, .call mapped 0x7FFE00002000]

/-- A call opens the pipe, then two use it at once. -/
def afterFirstUse : List AddrValidate.Event :=
  [.call mapped 0x7FFE00001000] ++ advances 11 0 3 4 ++ twoCalls ++ advances 3 0 5 6 ++
    advances 3 1 5 6 ++ advances 1 0 5 6 ++ advances 1 0 5 6

/-- Both open a pipe, and the second stores its descriptors between the stores of
the first. -/
def firstUse : List AddrValidate.Event :=
  twoCalls ++ advances 6 0 3 4 ++ advances 6 1 5 6 ++ advances 1 0 3 4 ++ advances 1 1 5 6 ++
    advances 1 0 3 4 ++ advances 2 1 5 6 ++ advances 1 0 3 4 ++ advances 2 0 3 4 ++
    advances 2 0 5 6

/-- The second call finds one of the two descriptors stored. -/
def halfStored : List AddrValidate.Event := twoCalls ++ advances 8 0 3 4 ++ advances 4 1 5 6

end Pprof.Given

namespace Pprof.AddrValidate

open Given

theorem consistent_of_apart_two :
    ∃ s : State, run (State.step 65536) .init afterFirstUse = some s ∧ s.calls = [] ∧
      Consistent s.shared ∧ s.results.map Result.valid = [true, true, true] := by
  have hrun : run (State.step 65536) .init afterFirstUse = some _ := rfl
  obtain ⟨hconsistent, _⟩ := consistent_of_apart (by decide) hrun (by decide)
  exact ⟨_, hrun, rfl, hconsistent rfl, rfl⟩

/-- Two threads that probe for the first time at once: both calls return true,
and leave the ends of different pipes, one of which is never drained; or one
finds half of the pipe stored and returns false. -/
theorem not_consistent_firstUse :
    (∃ s : State, run (State.step 65536) .init firstUse = some s ∧ s.calls = [] ∧
      s.results.map Result.valid = [true, true] ∧
      s.shared.os.lookup s.shared.readFd = some (1, .read) ∧
      s.shared.os.lookup s.shared.writeFd = some (0, .write) ∧
      s.shared.os.descriptors.length = 4 ∧ ¬ Consistent s.shared) ∧
    ∃ s : State, run (State.step 65536) .init halfStored = some s ∧
      s.results.map (fun r => (r.valid, r.mem.validate r.addr)) = [(false, true)] := by
  refine ⟨⟨_, rfl, rfl, rfl, rfl, rfl, rfl, ?_⟩, _, rfl, rfl⟩
  rintro (⟨hcreated, _⟩ | ⟨pipe, hjoined⟩)
  · cases hcreated
  · cases hjoined.descriptors

end Pprof.AddrValidate
