/-
The probe among the descriptors of the process.

`read_fd` and `write_fd` are plain numbers.  When a pipe cannot be made,
`open_pipe` has closed both and leaves the numbers behind, so that the next
descriptor the process opens may get one of them, and `validate` then reads,
writes and closes what is not its own.  Here the rest of the process opens,
uses and closes pipes while calls are in progress, and a call may fail to make
its pipe.

As long as the process is given no number that the atomics or a call in
progress hold, neither side sees the other:

* `advance_without` — a step of a call is the same step without the descriptors
  of the process, and leaves those alone;
* `spares_descriptors` — so no call touches them, however the calls overlap;
* `answers_despite` — and calls that do not overlap answer correctly, but for
  those whose pipe could not be made, which answer `false`.
-/
import Pprof.ProbePipe

open Transition

namespace Pprof.AddrValidate

/-! ### Hiding descriptors -/

/-- What is left without the descriptors of these pipes. -/
def Os.without (own : List ℕ) (os : Os) : Os :=
  { os with descriptors := os.descriptors.filter fun d => !own.contains d.pipe }

/-- The descriptors of these pipes. -/
def Os.only (own : List ℕ) (os : Os) : List Descriptor :=
  os.descriptors.filter fun d => own.contains d.pipe

/-- This is no number of a descriptor of these pipes. -/
def Os.Spared (own : List ℕ) (os : Os) (fd : ℤ) : Prop :=
  ∀ d ∈ os.descriptors, d.pipe ∈ own → d.fd ≠ fd

/-- The descriptors of these pipes, and what is in the pipes, stay as they are. -/
structure Os.Leaves (own : List ℕ) (os os' : Os) : Prop where
  only : os'.only own = os.only own
  held : ∀ pipe ∈ own, os'.held pipe = os.held pipe

theorem Os.Leaves.same {own : List ℕ} {os : Os} : os.Leaves own os := ⟨rfl, fun _ _ => rfl⟩

section

variable {own : List ℕ} {os : Os} {fd : ℤ}

theorem Os.lookup_without (h : os.Spared own fd) : (os.without own).lookup fd = os.lookup fd := by
  have hfind : ∀ l : List Descriptor, (∀ d ∈ l, d.pipe ∈ own → d.fd ≠ fd) →
      (l.filter fun d => !own.contains d.pipe).find? (fun d => d.fd == fd)
        = l.find? fun d => d.fd == fd := by
    intro l
    induction l with
    | nil => exact fun _ => rfl
    | cons d l ih =>
      intro hl
      obtain ⟨hd, hl⟩ := List.forall_mem_cons.mp hl
      by_cases hown : d.pipe ∈ own
      · -- a descriptor of the process has another number
        rw [List.filter_cons_of_neg (by simpa using hown), ih hl,
          List.find?_cons_of_neg (by simpa using hd hown)]
      · rw [List.filter_cons_of_pos (by simpa using hown), List.find?_cons, List.find?_cons, ih hl]
  rw [Os.lookup, Os.lookup, Os.without, hfind _ h]

theorem Os.lookup_spared (h : os.Spared own fd) {pipe : ℕ} {side : PipeEnd}
    (hlookup : os.lookup fd = some (pipe, side)) : pipe ∉ own := by
  obtain ⟨d, hd, hpair⟩ := Option.map_eq_some_iff.mp hlookup
  have hfd : d.fd = fd := by simpa using List.find?_some hd
  intro hown
  rw [← (Prod.mk.inj hpair).1] at hown
  exact h d (List.mem_of_find?_eq_some hd) hown hfd

theorem Os.isOpen_without {pipe : ℕ} (h : pipe ∉ own) (side : PipeEnd) :
    (os.without own).isOpen pipe side = os.isOpen pipe side := by
  rw [Os.isOpen, Os.isOpen, Bool.eq_iff_iff, List.any_eq_true, List.any_eq_true]
  constructor
  · rintro ⟨d, hd, hcond⟩
    exact ⟨d, List.mem_of_mem_filter hd, hcond⟩
  · rintro ⟨d, hd, hcond⟩
    have hpipe : d.pipe = pipe := by
      simp only [Bool.and_eq_true, beq_iff_eq] at hcond
      exact hcond.1
    exact ⟨d, List.mem_filter.mpr ⟨hd, by simpa [hpipe] using h⟩, hcond⟩

/-- A `read` from a number that is spared. -/
theorem Os.read_without (h : os.Spared own fd) :
    (os.without own).read fd = ((os.read fd).1, (os.read fd).2.without own) ∧
      os.Leaves own (os.read fd).2 := by
  rw [Os.read, Os.read, Os.lookup_without h]
  cases hlookup : os.lookup fd with
  | none => exact ⟨rfl, .same⟩
  | some d =>
    obtain ⟨pipe, side⟩ := d
    have hpipe := Os.lookup_spared h hlookup
    cases side with
    | write => exact ⟨rfl, .same⟩
    | read =>
      have hheld : (os.without own).held = os.held := rfl
      simp only [Os.isOpen_without hpipe, hheld]
      by_cases hzero : os.held pipe = 0
      · rw [if_pos hzero, if_pos hzero]
        exact ⟨rfl, .same⟩
      · rw [if_neg hzero, if_neg hzero]
        refine ⟨rfl, rfl, fun other hother => Function.update_of_ne ?_ _ _⟩
        rintro rfl
        exact hpipe hother

/-- A `write` to a number that is spared. -/
theorem Os.write_without (capacity : ℕ) (h : os.Spared own fd) (readable : Bool) :
    (os.without own).write capacity fd readable
        = ((os.write capacity fd readable).1, (os.write capacity fd readable).2.without own) ∧
      os.Leaves own (os.write capacity fd readable).2 := by
  rw [Os.write, Os.write, Os.lookup_without h]
  cases hlookup : os.lookup fd with
  | none => exact ⟨rfl, .same⟩
  | some d =>
    obtain ⟨pipe, side⟩ := d
    -- the descriptor is not one of the process's own, nor is its pipe
    have hpipe := Os.lookup_spared h hlookup
    cases side with
    | read => exact ⟨rfl, .same⟩
    | write =>
      have hheld : (os.without own).held = os.held := rfl
      simp only [Os.isOpen_without hpipe, hheld]
      cases os.isOpen pipe .read with
      | false => exact ⟨rfl, .same⟩
      | true =>
        by_cases hfull : capacity < os.held pipe + CHECK_LENGTH
        · simp only [Bool.not_true, Bool.false_eq_true, if_false, if_pos hfull]
          exact ⟨trivial, .same⟩
        · simp only [Bool.not_true, Bool.false_eq_true, if_false, if_neg hfull]
          cases readable with
          | false => exact ⟨rfl, .same⟩
          | true =>
            refine ⟨rfl, rfl, fun other hother => Function.update_of_ne ?_ _ _⟩
            rintro rfl
            exact hpipe hother

theorem Os.close_without (h : os.Spared own fd) :
    (os.without own).close fd = (os.close fd).without own ∧ os.Leaves own (os.close fd) := by
  refine ⟨?_, ?_, fun _ _ => rfl⟩
  · have hcomm : (os.descriptors.filter fun d => !own.contains d.pipe).filter (fun d => d.fd != fd)
        = (os.descriptors.filter fun d => d.fd != fd).filter fun d => !own.contains d.pipe := by
      rw [List.filter_filter, List.filter_filter]
      exact List.filter_congr fun d _ => Bool.and_comm _ _
    exact congrArg (fun ds => ({ os with descriptors := ds } : Os)) hcomm
  · rw [Os.only, Os.only, Os.close, List.filter_filter]
    refine List.filter_congr fun d hd => ?_
    by_cases hown : d.pipe ∈ own
    · simp [hown, h d hd hown]
    · simp [hown]

theorem Os.createPipe_without {os' : Os} {readFd writeFd : ℤ} (hcreated : os.created ∉ own)
    (h : os.createPipe readFd writeFd = some os') :
    (os.without own).createPipe readFd writeFd = some (os'.without own) ∧ os.Leaves own os' := by
  rw [Os.createPipe] at h
  split at h
  · rename_i hfree
    obtain rfl := Option.some.inj h
    have hfree' : (os.without own).Free readFd writeFd :=
      ⟨hfree.1, hfree.2.1, hfree.2.2.1, fun d hd => hfree.2.2.2 d (List.mem_of_mem_filter hd)⟩
    refine ⟨?_, ?_, fun pipe hpipe => Function.update_of_ne ?_ _ _⟩
    · rw [Os.createPipe, if_pos hfree']
      simp [Os.without, hcreated]
    · simp [Os.only, hcreated]
    · rintro rfl
      exact hcreated hpipe
  · cases h

end

/-! ### A step of a call -/

/-- The numbers a call has loaded, or got for its pipe. -/
def Phase.fds : Phase → List ℤ
  | .read fd | .openCloseRead fd | .openCloseWrite fd | .openStoreWrite fd | .write fd => [fd]
  | .openStoreRead readFd writeFd => [readFd, writeFd]
  | .loadRead | .openLoadRead | .openLoadWrite | .openCreate | .loadWrite => []

/-- The numbers that the atomics hold. -/
def Shared.fds (g : Shared) : List ℤ := [g.readFd, g.writeFd]

def Shared.without (own : List ℕ) (g : Shared) : Shared := { g with os := g.os.without own }

def State.without (own : List ℕ) (s : State) : State := { s with shared := s.shared.without own }

/-- The numbers of the phase a call is left in. -/
def Move.fds : Move → List ℤ
  | .goto phase => phase.fds
  | .ret _ => []

section

variable {own : List ℕ} {capacity : ℕ} {answer : Answer} {g g' : Shared} {c : Call} {move : Move}

/-- A call gets new numbers only for a pipe it makes. -/
theorem advance_fds (h : c.advance capacity answer g = some (g', move)) {fd : ℤ}
    (hfd : fd ∈ g'.fds ++ move.fds) : fd ∈ g.fds ++ c.phase.fds ∨
      (c.phase = .openCreate ∧ (fd = answer.readFd ∨ fd = answer.writeFd)) := by
  cases hphase : c.phase with
  | read fd' =>
    obtain ⟨_, rfl, rfl⟩ | ⟨valid, rfl, rfl⟩ := advance_read_cases hphase h
    · exact .inl hfd
    · cases valid <;> grind [Shared.fds, Move.fds, Phase.fds]
  | write fd' =>
    obtain ⟨_, rfl, rfl⟩ | ⟨valid, rfl, rfl⟩ := advance_write_cases hphase h
    · exact .inl hfd
    · grind [Shared.fds, Move.fds]
  | openCreate =>
    simp only [Call.advance, hphase, Option.map_eq_some_iff, Prod.mk.injEq] at h
    obtain ⟨os', _, rfl, rfl⟩ := h
    grind [Shared.fds, Move.fds, Phase.fds]
  | _ =>
    simp only [Call.advance, hphase, Option.some.injEq, Prod.mk.injEq] at h
    obtain ⟨rfl, rfl⟩ := h
    grind [Shared.fds, Move.fds, Phase.fds]

/-- A step of a call that holds no number of the process is the same step
without the descriptors of the process, and leaves those as they are. -/
theorem advance_without (hcreated : g.os.created ∉ own)
    (hspared : ∀ fd ∈ c.phase.fds, g.os.Spared own fd)
    (h : c.advance capacity answer g = some (g', move)) :
    c.advance capacity answer (g.without own) = some (g'.without own, move) ∧
      g.os.Leaves own g'.os := by
  cases hphase : c.phase with
  | read fd =>
    -- each system call is on a descriptor of the call, and gets the same answer
    obtain ⟨hread, hleaves⟩ := Os.read_without (hspared fd (by simp [hphase, Phase.fds]))
    cases hanswer : answer.interrupted with
    | true =>
      rw [advance_interrupted hanswer (.inl hphase)] at h ⊢
      obtain ⟨rfl, rfl⟩ := Prod.mk.inj (Option.some.inj h)
      exact ⟨rfl, .same⟩
    | false =>
      obtain ⟨valid, hvalid⟩ := g.os.readLoop_read fd
      rw [advance_read hanswer hphase rfl hvalid] at h
      obtain ⟨rfl, rfl⟩ := Prod.mk.inj (Option.some.inj h)
      have hread' : (g.without own).os.read fd = _ := hread
      exact ⟨advance_read hanswer hphase hread' hvalid, hleaves⟩
  | write fd =>
    obtain ⟨hwrite, hleaves⟩ := Os.write_without capacity
      (hspared fd (by simp [hphase, Phase.fds])) (readableAt c.mem c.addr)
    cases hanswer : answer.interrupted with
    | true =>
      rw [advance_interrupted hanswer (.inr hphase)] at h ⊢
      obtain ⟨rfl, rfl⟩ := Prod.mk.inj (Option.some.inj h)
      exact ⟨rfl, .same⟩
    | false =>
      obtain ⟨valid, hvalid⟩ := g.os.writeLoop_write capacity fd (readableAt c.mem c.addr)
      rw [advance_write hanswer hphase rfl hvalid] at h
      obtain ⟨rfl, rfl⟩ := Prod.mk.inj (Option.some.inj h)
      have hwrite' : (g.without own).os.write capacity fd (readableAt c.mem c.addr) = _ := hwrite
      exact ⟨advance_write hanswer hphase hwrite' hvalid, hleaves⟩
  | openCreate =>
    simp only [Call.advance, hphase, Option.map_eq_some_iff, Prod.mk.injEq] at h
    obtain ⟨os', hos, rfl, rfl⟩ := h
    -- the new pipe has a number that the process has not
    obtain ⟨hcreate, hleaves⟩ := Os.createPipe_without hcreated hos
    refine ⟨?_, hleaves⟩
    have hwithout : (g.without own).os = g.os.without own := rfl
    simp only [Call.advance, hphase, hwithout, hcreate, Option.map_some]
    rfl
  | openCloseRead fd =>
    obtain ⟨hclose, hleaves⟩ := Os.close_without (hspared fd (by simp [hphase, Phase.fds]))
    simp only [Call.advance, hphase, Option.some.injEq, Prod.mk.injEq] at h
    obtain ⟨rfl, rfl⟩ := h
    refine ⟨?_, hleaves⟩
    have hwithout : (g.without own).os = g.os.without own := rfl
    simp only [Call.advance, hphase, hwithout, hclose]
    rfl
  | openCloseWrite fd =>
    obtain ⟨hclose, hleaves⟩ := Os.close_without (hspared fd (by simp [hphase, Phase.fds]))
    simp only [Call.advance, hphase, Option.some.injEq, Prod.mk.injEq] at h
    obtain ⟨rfl, rfl⟩ := h
    refine ⟨?_, hleaves⟩
    have hwithout : (g.without own).os = g.os.without own := rfl
    simp only [Call.advance, hphase, hwithout, hclose]
    rfl
  | _ =>
    simp only [Call.advance, hphase, Option.some.injEq, Prod.mk.injEq] at h
    obtain ⟨rfl, rfl⟩ := h
    refine ⟨?_, .same⟩
    simp only [Call.advance, hphase]
    rfl

end

/-! ### The process around the probe -/

/-- The probe, the pipes that the rest of the process has made, and the calls
that returned because no pipe could be made. -/
structure World where
  probe : State
  own : List ℕ
  refused : List Result

inductive Act where
  | probe (e : Event)
  /-- `create_pipe` fails in the `i`th call; the atomics keep their numbers. -/
  | refuse (i : ℕ)
  /-- The process makes a pipe of its own. -/
  | openOwn (readFd writeFd : ℤ)
  | closeOwn (fd : ℤ)
  /-- The process reads or writes a pipe of its own. -/
  | useOwn (pipe held : ℕ)

namespace World

def init : World := ⟨.init, [], []⟩

def os (w : World) : Os := w.probe.shared.os

def withOs (w : World) (os : Os) : World :=
  { w with probe := { w.probe with shared := { w.probe.shared with os := os } } }

def step (capacity : ℕ) (w : World) : Act → Option World
  | .probe e => (w.probe.step capacity e).map fun probe => { w with probe := probe }
  | .refuse i =>
    match w.probe.calls[i]? with
    | some c =>
      if c.phase = .openCreate then
        some { w with
          probe := { w.probe with calls := w.probe.calls.eraseIdx i }
          refused := ⟨c.mem, c.addr, false⟩ :: w.refused }
      else none
    | none => none
  | .openOwn readFd writeFd =>
    (w.os.createPipe readFd writeFd).map fun os =>
      { w.withOs os with own := w.os.created :: w.own }
  | .closeOwn fd =>
    match w.os.lookup fd with
    | some (pipe, _) => if pipe ∈ w.own then some (w.withOs (w.os.close fd)) else none
    | none => none
  | .useOwn pipe held =>
    if pipe ∈ w.own then
      some (w.withOs { w.os with held := Function.update w.os.held pipe held })
    else none

/-- The numbers that the atomics and the calls in progress hold. -/
def fds (w : World) : List ℤ := w.probe.shared.fds ++ w.probe.calls.flatMap fun c => c.phase.fds

/-- The process gets no number that the probe holds. -/
def Spares (w : World) : Act → Prop
  | .openOwn readFd writeFd => readFd ∉ w.fds ∧ writeFd ∉ w.fds
  | _ => True

instance (w : World) : ∀ a, Decidable (w.Spares a)
  | .openOwn _ _ => inferInstanceAs (Decidable (_ ∧ _))
  | .probe _ | .refuse _ | .closeOwn _ | .useOwn _ _ => inferInstanceAs (Decidable True)

end World

/-! ### What a step does to the numbers -/

theorem Os.Spared.mono {own : List ℕ} {os os' : Os} {fd : ℤ} (h : os.Spared own fd)
    (hsub : ∀ d ∈ os'.descriptors, d ∈ os.descriptors) : os'.Spared own fd :=
  fun d hd => h d (hsub d hd)

theorem Os.close_sub (os : Os) (fd : ℤ) : ∀ d ∈ (os.close fd).descriptors, d ∈ os.descriptors :=
  fun _ hd => List.mem_of_mem_filter hd

/-- Descriptors have different numbers, and pipes are numbered as they are made. -/
structure Os.Tidy (os : Os) : Prop where
  distinct : (os.descriptors.map Descriptor.fd).Nodup
  created : ∀ d ∈ os.descriptors, d.pipe < os.created

section

variable {os os' : Os} {readFd writeFd : ℤ}

theorem Os.Tidy.same (h : os.Tidy) (hdescriptors : os'.descriptors = os.descriptors)
    (hcreated : os'.created = os.created) : os'.Tidy := by
  refine ⟨?_, ?_⟩
  · rw [hdescriptors]
    exact h.distinct
  · rw [hdescriptors, hcreated]
    exact h.created

theorem Os.Tidy.close (h : os.Tidy) (fd : ℤ) : (os.close fd).Tidy :=
  ⟨h.distinct.sublist (List.filter_sublist.map _), fun d hd => h.created d (os.close_sub fd d hd)⟩

theorem Os.createPipe_eq_some (h : os.createPipe readFd writeFd = some os') :
    os.Free readFd writeFd ∧ os'.created = os.created + 1 ∧
      os'.descriptors = ⟨readFd, os.created, .read⟩ :: ⟨writeFd, os.created, .write⟩ ::
        os.descriptors ∧ os'.held = Function.update os.held os.created 0 := by
  rw [Os.createPipe] at h
  split at h
  · obtain rfl := Option.some.inj h
    exact ⟨‹_›, rfl, rfl, rfl⟩
  · cases h

theorem Os.Tidy.createPipe (h : os.Tidy) (hos : os.createPipe readFd writeFd = some os') :
    os'.Tidy := by
  obtain ⟨⟨_, _, hne, hfree⟩, hcreated, hdescriptors, _⟩ := Os.createPipe_eq_some hos
  refine ⟨?_, ?_⟩
  · rw [hdescriptors, List.map_cons, List.map_cons, List.nodup_cons, List.nodup_cons]
    refine ⟨?_, ?_, h.distinct⟩
    · intro hmem
      obtain heq | hmem := List.mem_cons.mp hmem
      · exact hne heq
      · obtain ⟨d, hd, hfd⟩ := List.mem_map.mp hmem
        exact (hfree d hd).1 hfd
    · intro hmem
      obtain ⟨d, hd, hfd⟩ := List.mem_map.mp hmem
      exact (hfree d hd).2 hfd
  · rw [hdescriptors, hcreated]
    refine List.forall_mem_cons.mpr ⟨Nat.lt_succ_self _, List.forall_mem_cons.mpr
      ⟨Nat.lt_succ_self _, fun d hd => Nat.lt_succ_of_lt (h.created d hd)⟩⟩

end

/-- A call makes a pipe, or adds no descriptor. -/
theorem advance_makes {capacity : ℕ} {answer : Answer} {g g' : Shared} {c : Call} {move : Move}
    (h : c.advance capacity answer g = some (g', move)) :
    (c.phase = .openCreate ∧ g.os.createPipe answer.readFd answer.writeFd = some g'.os) ∨
    (c.phase ≠ .openCreate ∧ (∀ d ∈ g'.os.descriptors, d ∈ g.os.descriptors) ∧
      g'.os.created = g.os.created ∧ (g.os.Tidy → g'.os.Tidy)) := by
  by_cases hphase : c.phase = .openCreate
  · simp only [Call.advance, hphase, Option.map_eq_some_iff, Prod.mk.injEq] at h
    obtain ⟨os', hos, rfl, _⟩ := h
    exact .inl ⟨hphase, hos⟩
  · refine .inr ⟨hphase, ?_⟩
    obtain ⟨hdescriptors, hcreated⟩ | ⟨fd, _, hclose⟩ | ⟨hcreate, _⟩ := advance_os h
    · rw [hdescriptors]
      exact ⟨fun _ hd => hd, hcreated, fun htidy => htidy.same hdescriptors hcreated⟩
    · rw [hclose]
      exact ⟨g.os.close_sub fd, rfl, fun htidy => htidy.close fd⟩
    · exact absurd hcreate hphase

namespace World

variable {capacity : ℕ} {w w' : World}

/-- The numbers of the process are not those of the probe. -/
structure Disjoint (w : World) : Prop where
  spared : ∀ fd ∈ w.fds, w.os.Spared w.own fd
  tidy : w.os.Tidy
  own : ∀ pipe ∈ w.own, pipe < w.os.created

theorem disjoint_init : Disjoint init where
  spared _ _ _ hd := absurd hd List.not_mem_nil
  tidy := ⟨List.nodup_nil, fun _ hd => absurd hd List.not_mem_nil⟩
  own _ hp := absurd hp List.not_mem_nil

theorem Disjoint.created_not_mem (h : Disjoint w) : w.os.created ∉ w.own :=
  fun hmem => lt_irrefl _ (h.own _ hmem)

/-- A step that brings the probe no number. -/
theorem Disjoint.mono (h : Disjoint w) (hfds : ∀ fd ∈ w'.fds, fd ∈ w.fds) (hown : w'.own = w.own)
    (hdescriptors : ∀ d ∈ w'.os.descriptors, d ∈ w.os.descriptors) (htidy : w'.os.Tidy)
    (hcreated : w'.os.created = w.os.created) : Disjoint w' where
  spared fd hfd := by
    rw [hown]
    exact (h.spared fd (hfds fd hfd)).mono hdescriptors
  tidy := htidy
  own pipe hpipe := by
    rw [hcreated]
    exact h.own pipe (hown ▸ hpipe)

theorem mem_fds {fd : ℤ} :
    fd ∈ w.fds ↔ fd ∈ w.probe.shared.fds ∨ ∃ c ∈ w.probe.calls, fd ∈ c.phase.fds := by
  rw [fds, List.mem_append, List.mem_flatMap]

/-- What a step of a call leaves of the numbers. -/
theorem fds_advance {i : ℕ} {answer : Answer} {probe : State}
    (hstep : w.probe.step capacity (.advance i answer) = some probe) {fd : ℤ}
    (hfd : fd ∈ ({ w with probe := probe } : World).fds) : fd ∈ w.fds ∨
      ∃ c, w.probe.calls[i]? = some c ∧ c.phase = .openCreate ∧
        (fd = answer.readFd ∨ fd = answer.writeFd) := by
  obtain ⟨c, shared, move, hc, hadvance, hshared, hmove⟩ := State.step_advance hstep
  have hmem : c ∈ w.probe.calls := List.mem_of_getElem? hc
  -- a step of a call knows no number that it did not know, but for those the pipe call answers
  have hnew : fd ∈ shared.fds ++ move.fds → fd ∈ w.fds ∨ ∃ c, w.probe.calls[i]? = some c ∧
      c.phase = .openCreate ∧ (fd = answer.readFd ∨ fd = answer.writeFd) := by
    intro hfd
    obtain hold | ⟨hphase, hanswer⟩ := advance_fds hadvance hfd
    · obtain hold | hold := List.mem_append.mp hold
      · exact .inl (mem_fds.mpr (.inl hold))
      · exact .inl (mem_fds.mpr (.inr ⟨c, hmem, hold⟩))
    · exact .inr ⟨c, hc, hphase, hanswer⟩
  obtain hfd | ⟨d, hd, hfd⟩ := mem_fds.mp hfd
  · rw [hshared] at hfd
    exact hnew (List.mem_append_left _ hfd)
  · obtain ⟨phase, rfl, hcalls, _⟩ | ⟨valid, rfl, hcalls, _⟩ := hmove
    · rw [hcalls] at hd
      obtain hd | rfl := List.mem_or_eq_of_mem_set hd
      · exact .inl (mem_fds.mpr (.inr ⟨d, hd, hfd⟩))
      · exact hnew (List.mem_append_right _ hfd)
    · rw [hcalls] at hd
      exact .inl (mem_fds.mpr (.inr ⟨d, List.mem_of_mem_eraseIdx hd, hfd⟩))

/-- A step of the probe keeps the numbers apart. -/
theorem Disjoint.probe (h : Disjoint w) {e : Event} {probe : State}
    (hstep : w.probe.step capacity e = some probe) : Disjoint { w with probe := probe } := by
  cases e with
  | call mem addr =>
    simp only [State.step] at hstep
    split at hstep
    · obtain rfl := Option.some.inj hstep
      exact h.mono (fun _ hfd => hfd) rfl (fun _ hd => hd) h.tidy rfl
    · obtain rfl := Option.some.inj hstep
      refine h.mono (fun fd hfd => ?_) rfl (fun _ hd => hd) h.tidy rfl
      obtain hfd | ⟨c, hc, hfd⟩ := mem_fds.mp hfd
      · exact mem_fds.mpr (.inl hfd)
      · obtain hc | hc := List.mem_append.mp hc
        · exact mem_fds.mpr (.inr ⟨c, hc, hfd⟩)
        · rw [List.mem_singleton.mp hc] at hfd
          cases hfd
  | advance i answer =>
    obtain ⟨c, shared, move, hc, hadvance, hshared, _⟩ := State.step_advance hstep
    have hos : ({ w with probe := probe } : World).os = shared.os := congrArg Shared.os hshared
    obtain ⟨hphase, hcreate⟩ | ⟨hphase, hdescriptors, hcreated, htidy⟩ := advance_makes hadvance
    · -- the new numbers are in use nowhere
      obtain ⟨⟨_, _, _, hfree⟩, hsucc, hdescriptors, _⟩ := Os.createPipe_eq_some hcreate
      refine ⟨fun fd hfd d hd hown => ?_, ?_, fun pipe hpipe => ?_⟩
      · rw [hos, hdescriptors] at hd
        have hold : d ∈ w.os.descriptors := by
          -- the pipe of the call is none of the process
          obtain rfl | hd := List.mem_cons.mp hd
          · exact absurd hown h.created_not_mem
          · obtain rfl | hd := List.mem_cons.mp hd
            · exact absurd hown h.created_not_mem
            · exact hd
        obtain hfd | ⟨_, _, _, rfl | rfl⟩ := fds_advance hstep hfd
        · exact h.spared fd hfd d hold hown
        · exact (hfree d hold).1
        · exact (hfree d hold).2
      · rw [hos]
        exact h.tidy.createPipe hcreate
      · rw [hos, hsucc]
        exact Nat.lt_succ_of_lt (h.own pipe hpipe)
    · refine h.mono (fun fd hfd => ?_) rfl (by rw [hos]; exact hdescriptors)
        (by rw [hos]; exact htidy h.tidy) (by rw [hos]; exact hcreated)
      obtain hfd | ⟨d, hd, hcreate, _⟩ := fds_advance hstep hfd
      · exact hfd
      · obtain rfl := Option.some.inj (hc.symm.trans hd)
        exact absurd hcreate hphase
  | close =>
    obtain rfl := Option.some.inj hstep
    refine h.mono (fun _ hfd => hfd) rfl ?_ ((h.tidy.close _).close _) rfl
    exact fun d hd => Os.close_sub _ _ d (Os.close_sub _ _ d hd)

/-- Every act of a process that is given spare numbers keeps them apart. -/
theorem Disjoint.step (h : Disjoint w) {a : Act} (hspares : w.Spares a)
    (hstep : w.step capacity a = some w') : Disjoint w' := by
  cases a with
  | probe e =>
    obtain ⟨probe, hprobe, rfl⟩ := Option.map_eq_some_iff.mp hstep
    exact h.probe hprobe
  | refuse i =>
    simp only [World.step] at hstep
    split at hstep
    · split at hstep
      · obtain rfl := Option.some.inj hstep
        -- the call that is refused gives up its descriptors
        refine h.mono (fun fd hfd => ?_) rfl (fun _ hd => hd) h.tidy rfl
        obtain hfd | ⟨c, hc, hfd⟩ := mem_fds.mp hfd
        · exact mem_fds.mpr (.inl hfd)
        · exact mem_fds.mpr (.inr ⟨c, List.mem_of_mem_eraseIdx hc, hfd⟩)
      · cases hstep
    · cases hstep
  | openOwn readFd writeFd =>
    obtain ⟨os, hos, rfl⟩ := Option.map_eq_some_iff.mp hstep
    obtain ⟨_, hsucc, hdescriptors, _⟩ := Os.createPipe_eq_some hos
    -- the numbers of the new pipe are not held by the probe
    refine ⟨fun fd hfd d hd hown => ?_, h.tidy.createPipe hos, fun pipe hpipe => ?_⟩
    · have hd : d ∈ os.descriptors := hd
      have hfd : fd ∈ w.fds := hfd
      rw [hdescriptors] at hd
      obtain rfl | hd := List.mem_cons.mp hd
      · rintro rfl
        exact hspares.1 hfd
      · obtain rfl | hd := List.mem_cons.mp hd
        · rintro rfl
          exact hspares.2 hfd
        · refine h.spared fd hfd d hd ((List.mem_cons.mp hown).resolve_left fun hpipe => ?_)
          exact lt_irrefl _ (hpipe ▸ h.tidy.created d hd)
    · show pipe < os.created
      rw [hsucc]
      obtain rfl | hpipe := List.mem_cons.mp hpipe
      · exact Nat.lt_succ_self _
      · exact Nat.lt_succ_of_lt (h.own pipe hpipe)
  | closeOwn fd =>
    simp only [World.step] at hstep
    split at hstep
    · split at hstep
      · obtain rfl := Option.some.inj hstep
        exact h.mono (fun _ hfd => hfd) rfl (w.os.close_sub fd) (h.tidy.close fd) rfl
      · cases hstep
    · cases hstep
  | useOwn pipe held =>
    simp only [World.step] at hstep
    split at hstep
    · obtain rfl := Option.some.inj hstep
      exact h.mono (fun _ hfd => hfd) rfl (fun _ hd => hd) (h.tidy.same rfl rfl) rfl
    · cases hstep

/-- A step of the probe does not see the descriptors of the process, and leaves
them alone. -/
theorem Disjoint.probe_without (h : Disjoint w) {e : Event} {probe : State}
    (hstep : w.probe.step capacity e = some probe) :
    (w.probe.without w.own).step capacity e = some (probe.without w.own) ∧
      w.os.Leaves w.own probe.shared.os := by
  cases e with
  | call mem addr =>
    -- a call that begins touches no descriptor, and for the null address it ends
    simp only [State.step] at hstep ⊢
    split at hstep
    · rename_i hzero
      obtain rfl := Option.some.inj hstep
      rw [dif_pos hzero]
      exact ⟨rfl, .same⟩
    · rename_i hzero
      obtain rfl := Option.some.inj hstep
      rw [dif_neg hzero]
      exact ⟨rfl, .same⟩
  | advance i answer =>
    simp only [State.step] at hstep ⊢
    have hcalls : (w.probe.without w.own).calls = w.probe.calls := rfl
    rw [hcalls]
    cases hc : w.probe.calls[i]? with
    | none =>
      rw [hc] at hstep
      cases hstep
    | some c =>
      rw [hc] at hstep
      -- the descriptors that the call goes by are not those of the process
      have hspared : ∀ fd ∈ c.phase.fds, w.os.Spared w.own fd := fun fd hfd =>
        h.spared fd (mem_fds.mpr (.inr ⟨c, List.mem_of_getElem? hc, hfd⟩))
      cases hadvance : c.advance capacity answer w.probe.shared with
      | none =>
        simp only [hadvance] at hstep
        cases hstep
      | some out =>
        obtain ⟨shared, move⟩ := out
        obtain ⟨hwithout, hleaves⟩ := advance_without h.created_not_mem hspared hadvance
        have hshared : (w.probe.without w.own).shared = w.probe.shared.without w.own := rfl
        simp only [hadvance] at hstep
        simp only [hshared, hwithout]
        -- the step of the call is the same, whether the call goes on or returns
        cases move with
        | goto phase =>
          obtain rfl := Option.some.inj hstep
          exact ⟨rfl, hleaves⟩
        | ret valid =>
          obtain rfl := Option.some.inj hstep
          exact ⟨rfl, hleaves⟩
  | close =>
    -- the two atomics are not descriptors of the process either: one close each
    obtain rfl := Option.some.inj hstep
    have hread : w.os.Spared w.own w.probe.shared.readFd :=
      h.spared _ (mem_fds.mpr (.inl List.mem_cons_self))
    have hwrite : w.os.Spared w.own w.probe.shared.writeFd :=
      h.spared _ (mem_fds.mpr (.inl (List.mem_cons_of_mem _ List.mem_cons_self)))
    obtain ⟨hfirst, hleaves⟩ := Os.close_without hread
    obtain ⟨hsecond, hleaves'⟩ := Os.close_without (hwrite.mono (w.os.close_sub _))
    refine ⟨?_, hleaves'.only.trans hleaves.only, fun _ _ => rfl⟩
    -- both closes commute with taking the descriptors of the process out
    show some _ = some _
    refine congrArg some ?_
    show ({ w.probe.without w.own with shared := _ } : State) = _
    have hos : ((w.os.without w.own).close w.probe.shared.readFd).close w.probe.shared.writeFd
        = ((w.os.close w.probe.shared.readFd).close w.probe.shared.writeFd).without w.own := by
      rw [hfirst, hsecond]
    exact congrArg (fun os => (⟨⟨w.probe.shared.readFd, w.probe.shared.writeFd, os⟩,
      w.probe.calls, w.probe.results⟩ : State)) hos

end World

/-- A step of the probe. -/
def Act.ofProbe : Act → Bool
  | .probe _ | .refuse _ => true
  | _ => false

namespace World

variable {capacity : ℕ} {w w' : World}

theorem disjoint_of_run {acts : List Act} (hrun : run (step capacity) .init acts = some w)
    (hspares : Along (step capacity) Spares .init acts) : Disjoint w :=
  run_invariant_along (fun _ _ _ h hspares hstep => h.step hspares hstep) disjoint_init hspares hrun

/-- **The probe spares the process.**  In every run, with calls that overlap and
fail to make their pipe, in which the process gets no number that the atomics or
a call in progress hold: every step of a call leaves the descriptors of the
process open and what is in its pipes as it is. -/
theorem spares_descriptors {acts : List Act} (hrun : run (step capacity) .init acts = some w)
    (hspares : Along (step capacity) Spares .init acts) {a : Act} (ha : a.ofProbe = true)
    (hstep : w.step capacity a = some w') :
    w'.own = w.own ∧ w'.os.only w.own = w.os.only w.own ∧
      ∀ pipe ∈ w.own, w'.os.held pipe = w.os.held pipe := by
  have h := disjoint_of_run hrun hspares
  cases a with
  | probe e =>
    obtain ⟨probe, hprobe, rfl⟩ := Option.map_eq_some_iff.mp hstep
    obtain ⟨_, hleaves⟩ := h.probe_without hprobe
    exact ⟨rfl, hleaves.only, hleaves.held⟩
  | refuse i =>
    simp only [World.step] at hstep
    split at hstep
    · split at hstep
      · obtain rfl := Option.some.inj hstep
        exact ⟨rfl, rfl, fun _ _ => rfl⟩
      · cases hstep
    · cases hstep
  | _ => cases ha

end World

/-! ### Calls that do not overlap -/

section

variable {slots : ℕ} {g g' : Shared} {calls : List Call}

theorem Joined.congr {os os' : Os} {readFd writeFd : ℤ} {pipe : ℕ}
    (h : Joined os readFd writeFd pipe) (hdescriptors : os'.descriptors = os.descriptors) :
    Joined os' readFd writeFd pipe := ⟨hdescriptors.trans h.descriptors, h.ne⟩

theorem Joined.held_congr {os os' : Os} {readFd writeFd : ℤ} {pipe : ℕ}
    (h : Joined os readFd writeFd pipe)
    (hheld : ∀ d ∈ os.descriptors, os'.held d.pipe = os.held d.pipe) :
    os'.held pipe = os.held pipe := by
  refine hheld ⟨readFd, pipe, .read⟩ ?_
  rw [h.descriptors]
  exact List.mem_cons_self

/-- The invariant is about the descriptors that are open and what they hold. -/
theorem Inv.congr (h : Inv slots g calls) (hread : g'.readFd = g.readFd)
    (hwrite : g'.writeFd = g.writeFd) (hdescriptors : g'.os.descriptors = g.os.descriptors)
    (hheld : ∀ d ∈ g.os.descriptors, g'.os.held d.pipe = g.os.held d.pipe) :
    Inv slots g' calls := by
  cases h with
  | closed hclosed hcalls => exact .closed (hdescriptors.trans hclosed) hcalls
  | opening c rest hperm hopening hrest =>
    refine .opening c rest hperm ?_ hrest
    cases hphase : c.phase with
    | openStoreRead readFd writeFd =>
      -- the phases that open a pipe hold its ends; the others ask nothing of the table
      rw [hphase] at hopening
      obtain ⟨pipe, hjoined, hzero⟩ := hopening
      exact ⟨pipe, hjoined.congr hdescriptors, (hjoined.held_congr hheld).trans hzero⟩
    | openStoreWrite writeFd =>
      rw [hphase] at hopening
      obtain ⟨pipe, hjoined, hzero⟩ := hopening
      refine ⟨pipe, ?_, (hjoined.held_congr hheld).trans hzero⟩
      rw [hread]
      exact hjoined.congr hdescriptors
    | loadRead | read fd | loadWrite | write fd =>
      rw [hphase] at hopening
      exact hopening
    | _ =>
      rw [hphase] at hopening
      exact hdescriptors.trans hopening
  | joined pipe n hjoined hsum hslots hcalls =>
    refine .joined pipe n ?_ ((hjoined.held_congr hheld).trans hsum) hslots fun c hc => ?_
    · rw [hread, hwrite]
      exact hjoined.congr hdescriptors
    · rw [Uses, hread, hwrite]
      exact hcalls c hc

/-- When a call cannot make its pipe, nothing is open. -/
theorem Inv.refuse (h : Inv slots g calls) {i : ℕ} {c : Call} (hc : calls[i]? = some c)
    (hphase : c.phase = .openCreate) : Inv slots g (calls.eraseIdx i) := by
  have hmem := List.mem_of_getElem? hc
  cases h with
  | closed hclosed hcalls =>
    exact .closed hclosed fun d hd => hcalls d (List.mem_of_mem_eraseIdx hd)
  | opening o rest hperm hopening hrest =>
    have ho : o = c := by
      obtain rfl | hc := List.mem_cons.mp (hperm.mem_iff.mp hmem)
      · rfl
      · cases hphase.symm.trans (hrest c hc)
    subst ho
    rw [hphase] at hopening
    have hothers : (calls.eraseIdx i).Perm rest := ((perm_eraseIdx hc).symm.trans hperm).cons_inv
    exact .closed hopening fun d hd => .inl (hrest d (hothers.mem_iff.mp hd))
  | joined pipe n hjoined hheld hslots hcalls =>
    -- no call opens a pipe while one is joined
    obtain huses | huses | huses | huses := hcalls c hmem
    · cases hphase.symm.trans huses
    · cases hphase.symm.trans huses
    · cases hphase.symm.trans huses
    · cases hphase.symm.trans huses

end

namespace World

variable {capacity : ℕ} {w w' : World}

/-- Calls do not overlap; the process may act at any time. -/
def alone (w : World) : Act → Bool
  | .probe e => nonOverlapping w.probe e
  | _ => true

/-- Without the descriptors of the process, the probe is sound. -/
structure Safe (w : World) : Prop where
  disjoint : Disjoint w
  sound : Sound 1 (w.probe.without w.own)
  length_le : w.probe.calls.length ≤ 1
  refused : ∀ r ∈ w.refused, r.valid = false

theorem safe_init : Safe init where
  disjoint := disjoint_init
  sound := sound_init 1
  length_le := Nat.zero_le 1
  refused _ hr := absurd hr List.not_mem_nil

/-- An act of the process that the probe does not see. -/
theorem Safe.unseen (h : Safe w) (hdisjoint : Disjoint w') (hcalls : w'.probe.calls = w.probe.calls)
    (hresults : w'.probe.results = w.probe.results) (hrefused : w'.refused = w.refused)
    (hread : w'.probe.shared.readFd = w.probe.shared.readFd)
    (hwrite : w'.probe.shared.writeFd = w.probe.shared.writeFd)
    (hdescriptors : (w'.os.without w'.own).descriptors = (w.os.without w.own).descriptors)
    (hheld : ∀ d ∈ (w.os.without w.own).descriptors, w'.os.held d.pipe = w.os.held d.pipe) :
    Safe w' where
  disjoint := hdisjoint
  sound := by
    refine ⟨?_, ?_⟩
    · -- the invariant is about what the probe sees, and that is as it was
      have hinv : Inv 1 (w'.probe.shared.without w'.own) w.probe.calls :=
        h.sound.inv.congr hread hwrite hdescriptors hheld
      show Inv 1 _ w'.probe.calls
      rw [hcalls]
      exact hinv
    · show ∀ r ∈ w'.probe.results, _
      rw [hresults]
      exact h.sound.results
  length_le := by
    rw [hcalls]
    exact h.length_le
  refused := by
    rw [hrefused]
    exact h.refused

theorem Safe.step (hcapacity : CHECK_LENGTH ≤ capacity) (h : Safe w) {a : Act}
    (hspares : w.Spares a) (halone : w.alone a = true) (hstep : w.step capacity a = some w') :
    Safe w' := by
  have hdisjoint := h.disjoint.step hspares hstep
  cases a with
  | probe e =>
    obtain ⟨probe, hprobe, rfl⟩ := Option.map_eq_some_iff.mp hstep
    -- the probe steps as it would without the descriptors of the process
    obtain ⟨hwithout, _⟩ := h.disjoint.probe_without hprobe
    have hnon : nonOverlapping (w.probe.without w.own) e = true := by
      cases e with
      | call mem addr => exact halone
      | advance i answer => rfl
      | close => exact halone
    obtain ⟨hsound, hlength⟩ := Sound.step_alone hcapacity ⟨h.sound, h.length_le⟩ hnon hwithout
    exact ⟨hdisjoint, hsound, hlength, h.refused⟩
  | refuse i =>
    simp only [World.step] at hstep
    split at hstep
    · rename_i c hc
      split at hstep
      · rename_i hphase
        obtain rfl := Option.some.inj hstep
        -- a call that is refused ends with `false`, and leaves the rest
        refine ⟨hdisjoint, ⟨h.sound.inv.refuse hc hphase, h.sound.results⟩, ?_, ?_⟩
        · exact (List.length_eraseIdx_le _ _).trans h.length_le
        · exact List.forall_mem_cons.mpr ⟨rfl, h.refused⟩
      · cases hstep
    · cases hstep
  | openOwn readFd writeFd =>
    obtain ⟨os, hos, rfl⟩ := Option.map_eq_some_iff.mp hstep
    obtain ⟨_, _, hdescriptors, hheld⟩ := Os.createPipe_eq_some hos
    -- what the process opens is taken out again
    refine h.unseen hdisjoint rfl rfl rfl rfl rfl ?_ fun d hd => ?_
    · show os.descriptors.filter (fun d => !(w.os.created :: w.own).contains d.pipe) = _
      rw [hdescriptors, List.filter_cons_of_neg (by simp), List.filter_cons_of_neg (by simp)]
      refine List.filter_congr fun d hd => ?_
      have hne : d.pipe ≠ w.os.created := (h.disjoint.tidy.created d hd).ne
      simp [hne]
    · have hne : d.pipe ≠ w.os.created :=
        (h.disjoint.tidy.created d (List.mem_of_mem_filter hd)).ne
      show os.held d.pipe = w.os.held d.pipe
      rw [hheld]
      exact Function.update_of_ne hne _ _
  | closeOwn fd =>
    simp only [World.step] at hstep
    split at hstep
    · rename_i pipe side hlookup
      split at hstep
      · rename_i hown
        obtain rfl := Option.some.inj hstep
        refine h.unseen hdisjoint rfl rfl rfl rfl rfl ?_ fun _ _ => rfl
        show (w.os.descriptors.filter _).filter _ = w.os.descriptors.filter _
        rw [List.filter_filter]
        refine List.filter_congr fun d hd => ?_
        obtain ⟨d₀, hfind, hpair⟩ := Option.map_eq_some_iff.mp hlookup
        by_cases hfd : d.fd = fd
        · -- the number is that of one descriptor only
          have hfd₀ : d₀.fd = fd := by simpa using List.find?_some hfind
          have heq : d = d₀ := List.inj_on_of_nodup_map h.disjoint.tidy.distinct hd
            (List.mem_of_find?_eq_some hfind) (hfd.trans hfd₀.symm)
          have hpipe : d.pipe ∈ w.own := by
            rw [heq, (Prod.mk.inj hpair).1]
            exact hown
          simp [withOs, hpipe]
        · simp [withOs, hfd]
      · cases hstep
    · cases hstep
  | useOwn pipe held =>
    simp only [World.step] at hstep
    split at hstep
    · rename_i hown
      obtain rfl := Option.some.inj hstep
      refine h.unseen hdisjoint rfl rfl rfl rfl rfl rfl fun d hd => Function.update_of_ne ?_ _ _
      rintro rfl
      -- only the content of one of its own pipes changes
      have hnot : d.pipe ∉ w.own := by simpa [Os.without] using (List.mem_filter.mp hd).2
      exact hnot hown
    · cases hstep

/-- **Calls answer correctly despite the process.**  In every run of calls that
do not overlap, in which the process opens, uses and closes its own pipes at
any time and gets no number that the probe holds: of the pipes that the probe
has made at most one is open, a call that made its pipe or needed none was
right, and one whose pipe could not be made answered `false`. -/
theorem answers_despite (hcapacity : CHECK_LENGTH ≤ capacity) {acts : List Act}
    (hrun : run (step capacity) .init acts = some w)
    (hspares : Along (step capacity) Spares .init acts)
    (halone : Along (step capacity) (fun w a => w.alone a = true) .init acts) :
    (w.os.without w.own).OnePipe CHECK_LENGTH ∧ w.probe.calls.length ≤ 1 ∧
    (∀ r ∈ w.probe.results, r.valid = true ↔
      r.addr ≠ 0 ∧ ∀ i < CHECK_LENGTH, r.mem.readable (r.addr + i) = true) ∧
    ∀ r ∈ w.refused, r.valid = false := by
  have h : Safe w := run_invariant_along
    (fun _ _ _ h he hstep => h.step hcapacity he.1 he.2 hstep) safe_init
    (along_and hspares halone) hrun
  refine ⟨h.sound.inv.onePipe, h.length_le, fun r hr => ?_, h.refused⟩
  rw [h.sound.results r hr, validate_iff]

end World

end Pprof.AddrValidate

/-! ### A pipe that cannot be made -/

namespace Pprof.Given

open AddrValidate

def advanced (n : ℕ) (readFd writeFd : ℤ) : List Act :=
  (advances n 0 readFd writeFd).map Act.probe

/-- A call makes the pipe and the process closes it; the next call cannot make
one.  Then the process makes a pipe of its own, and two words are in it. -/
def exhausted (readFd writeFd : ℤ) : List Act :=
  [.probe (.call mapped 0x7FFE00001000)] ++ advanced 11 3 4 ++
    [.probe .close, .probe (.call mapped 0x7FFE00001000)] ++ advanced 6 0 0 ++
    [.refuse 0, .openOwn readFd writeFd, .useOwn 1 16, .probe (.call mapped 0x7FFE00001000)]

end Pprof.Given

namespace Pprof.AddrValidate.World

open Given

/-- The process gets other numbers than those that were left behind. -/
theorem spares_descriptors_exhausted :
    ∃ w w' : World, run (step 65536) .init (exhausted 5 6 ++ advanced 10 3 4) = some w ∧
      w.step 65536 (.probe (.advance 0 ⟨false, 3, 4⟩)) = some w' ∧
      w'.os.only w.own = w.os.only w.own ∧ w'.os.held 1 = w.os.held 1 := by
  have hrun : run (step 65536) .init (exhausted 5 6 ++ advanced 10 3 4) = some _ := rfl
  obtain ⟨_, honly, hheld⟩ := spares_descriptors (a := .probe (.advance 0 ⟨false, 3, 4⟩)) hrun
    (by decide) rfl rfl
  exact ⟨_, _, hrun, rfl, honly, hheld 1 (by decide)⟩

theorem answers_despite_exhausted :
    ∃ w : World, run (step 65536) .init (exhausted 5 6 ++ advanced 11 3 4) = some w ∧
      (w.os.without w.own).OnePipe CHECK_LENGTH ∧ w.refused.map Result.valid = [false] ∧
      w.probe.results.map Result.valid = [true, true] := by
  have hrun : run (step 65536) .init (exhausted 5 6 ++ advanced 11 3 4) = some _ := rfl
  obtain ⟨honePipe, _⟩ := answers_despite (by decide) hrun (by decide) (by decide)
  exact ⟨_, hrun, honePipe, rfl, rfl⟩

/-- The process gets the numbers that were left behind: the next call takes the
two words out of its pipe. -/
example : (run (step 65536) .init (exhausted 3 4)).map (fun w => w.os.held 1) = some 16 ∧
    (run (step 65536) .init (exhausted 3 4 ++ advanced 2 0 0)).map (fun w => w.os.held 1)
      = some 0 := by decide

end Pprof.AddrValidate.World
