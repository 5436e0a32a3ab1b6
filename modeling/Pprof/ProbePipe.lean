/-
The pipe of the probe.

`validate` of `addr_validate.rs` keeps its pipe from call to call: two atomics
hold the numbers of its ends, and the bytes that one call writes are taken out
by the next.  Here every load and store of an atomic and every call of the
system is a step of its own, so that calls can overlap; `Os` are the pipes that
were made, and the process may close both ends between calls.

* `Inv` — nothing is open; or one call is opening the pipe and the others have
  not started; or the pipe is open, and every call that is going to write has
  room in it;
* `Inv.advance` — each step of a call keeps it, as long as no other call is in
  the way (`apart`);
* `sequential` — calls that do not overlap answer correctly.
-/
import Pprof.AddrValidate
import Pprof.Transition

open Transition

namespace Pprof.AddrValidate

/-! ### Pipes of the system -/

inductive PipeEnd where
  | read
  | write
  deriving DecidableEq

/-- An open descriptor: one end of a pipe. -/
structure Descriptor where
  fd : ℤ
  pipe : ℕ
  side : PipeEnd
  deriving DecidableEq

/-- The descriptors that are open, and the number of bytes in each pipe. -/
structure Os where
  descriptors : List Descriptor
  held : ℕ → ℕ
  created : ℕ

namespace Os

def new : Os := ⟨[], fun _ => 0, 0⟩

def lookup (os : Os) (fd : ℤ) : Option (ℕ × PipeEnd) :=
  (os.descriptors.find? fun d => d.fd == fd).map fun d => (d.pipe, d.side)

def isOpen (os : Os) (pipe : ℕ) (side : PipeEnd) : Bool :=
  os.descriptors.any fun d => d.pipe == pipe && d.side == side

/-- `read` of `CHECK_LENGTH` bytes, not blocking. -/
def read (os : Os) (fd : ℤ) : Except Errno ℕ × Os :=
  match os.lookup fd with
  | some (pipe, .read) =>
    if os.held pipe = 0 then (if os.isOpen pipe .write then .error .eagain else .ok 0, os)
    else
      let bytes := min CHECK_LENGTH (os.held pipe)
      (.ok bytes, { os with held := Function.update os.held pipe (os.held pipe - bytes) })
  | _ => (.error .other, os)

/-- `write` of the `CHECK_LENGTH` bytes at an address, not blocking: all of them
or none. -/
def write (capacity : ℕ) (os : Os) (fd : ℤ) (readable : Bool) : Except Errno ℕ × Os :=
  match os.lookup fd with
  | some (pipe, .write) =>
    if !os.isOpen pipe .read then (.error .other, os)
    else if capacity < os.held pipe + CHECK_LENGTH then (.error .eagain, os)
    else if readable then
      (.ok CHECK_LENGTH,
        { os with held := Function.update os.held pipe (os.held pipe + CHECK_LENGTH) })
    else (.error .efault, os)
  | _ => (.error .other, os)

def close (os : Os) (fd : ℤ) : Os :=
  { os with descriptors := os.descriptors.filter fun d => d.fd != fd }

/-- These numbers are not in use. -/
def Free (os : Os) (readFd writeFd : ℤ) : Prop :=
  0 ≤ readFd ∧ 0 ≤ writeFd ∧ readFd ≠ writeFd ∧
    ∀ d ∈ os.descriptors, d.fd ≠ readFd ∧ d.fd ≠ writeFd

instance (os : Os) (readFd writeFd : ℤ) : Decidable (os.Free readFd writeFd) :=
  inferInstanceAs (Decidable (_ ∧ _ ∧ _ ∧ _))

/-- A new pipe, whose ends get these numbers. -/
def createPipe (os : Os) (readFd writeFd : ℤ) : Option Os :=
  if os.Free readFd writeFd then
    some
      { descriptors := ⟨readFd, os.created, .read⟩ :: ⟨writeFd, os.created, .write⟩ ::
          os.descriptors
        held := Function.update os.held os.created 0
        created := os.created + 1 }
  else none

/-- At most one pipe is open, and it holds at most `bound` bytes. -/
structure OnePipe (bound : ℕ) (os : Os) : Prop where
  length_le : os.descriptors.length ≤ 2
  pipe : ∀ d ∈ os.descriptors, ∀ d' ∈ os.descriptors, d.pipe = d'.pipe
  held : ∀ d ∈ os.descriptors, os.held d.pipe ≤ bound

end Os

/-! ### Calls of `validate` -/

/-- What all calls share: `MEM_VALIDATE_PIPE` and the system. -/
structure Shared where
  readFd : ℤ
  writeFd : ℤ
  os : Os

/-- The next step of a call. -/
inductive Phase where
  | loadRead
  | read (fd : ℤ)
  /-- `open_pipe`. -/
  | openLoadRead
  | openCloseRead (fd : ℤ)
  | openLoadWrite
  | openCloseWrite (fd : ℤ)
  | openCreate
  | openStoreRead (readFd writeFd : ℤ)
  | openStoreWrite (writeFd : ℤ)
  | loadWrite
  | write (fd : ℤ)
  deriving DecidableEq

/-- A call that has seen that its address is not null. -/
structure Call where
  mem : Memory
  addr : ℕ
  phase : Phase
  addr_ne : addr ≠ 0

/-- How the system answers a step: whether a signal interrupts it, and the
numbers a new pipe gets. -/
structure Answer where
  interrupted : Bool
  readFd : ℤ
  writeFd : ℤ

inductive Move where
  | goto (phase : Phase)
  | ret (valid : Bool)
  deriving DecidableEq

/-- One step of `validate`, or of the `open_pipe` it is in. -/
def Call.advance (capacity : ℕ) (answer : Answer) (g : Shared) (c : Call) :
    Option (Shared × Move) :=
  match c.phase with
  | .loadRead => some (g, .goto (.read g.readFd))
  | .read fd =>
    let result := if answer.interrupted then (.error .eintr, g.os) else g.os.read fd
    match readLoop [result.1] with
    | none => some (g, .goto (.read fd))
    | some true => some ({ g with os := result.2 }, .goto .loadWrite)
    | some false => some ({ g with os := result.2 }, .goto .openLoadRead)
  | .openLoadRead => some (g, .goto (.openCloseRead g.readFd))
  | .openCloseRead fd => some ({ g with os := g.os.close fd }, .goto .openLoadWrite)
  | .openLoadWrite => some (g, .goto (.openCloseWrite g.writeFd))
  | .openCloseWrite fd => some ({ g with os := g.os.close fd }, .goto .openCreate)
  | .openCreate =>
    (g.os.createPipe answer.readFd answer.writeFd).map fun os =>
      ({ g with os := os }, .goto (.openStoreRead answer.readFd answer.writeFd))
  | .openStoreRead readFd writeFd =>
    some ({ g with readFd := readFd }, .goto (.openStoreWrite writeFd))
  | .openStoreWrite writeFd => some ({ g with writeFd := writeFd }, .goto .loadWrite)
  | .loadWrite => some (g, .goto (.write g.writeFd))
  | .write fd =>
    let result :=
      if answer.interrupted then (.error .eintr, g.os)
      else g.os.write capacity fd (readableAt c.mem c.addr)
    match writeLoop [result.1] with
    | none => some (g, .goto (.write fd))
    | some valid => some ({ g with os := result.2 }, .ret valid)

/-- A call that has returned. -/
structure Result where
  mem : Memory
  addr : ℕ
  valid : Bool

structure State where
  shared : Shared
  calls : List Call
  results : List Result

/-- No call has been made; nothing is open. -/
def State.init : State := ⟨⟨-1, -1, .new⟩, [], []⟩

inductive Event where
  /-- A thread calls `validate(addr)`. -/
  | call (mem : Memory) (addr : ℕ)
  /-- One step of the `i`th call in progress. -/
  | advance (i : ℕ) (answer : Answer)
  /-- The process closes both descriptors. -/
  | close

namespace State

def step (capacity : ℕ) (s : State) : Event → Option State
  | .call mem addr =>
    if h : addr = 0 then some { s with results := ⟨mem, addr, false⟩ :: s.results }
    else some { s with calls := s.calls ++ [⟨mem, addr, .loadRead, h⟩] }
  | .advance i answer =>
    match s.calls[i]? with
    | none => none
    | some c =>
      match c.advance capacity answer s.shared with
      | none => none
      | some (shared, .goto phase) =>
        some { s with shared := shared, calls := s.calls.set i { c with phase := phase } }
      | some (shared, .ret valid) =>
        some ⟨shared, s.calls.eraseIdx i, ⟨c.mem, c.addr, valid⟩ :: s.results⟩
  | .close =>
    let os := (s.shared.os.close s.shared.readFd).close s.shared.writeFd
    some { s with shared := { s.shared with os := os } }

end State

/-! ### Where calls are -/

/-- The call is inside `open_pipe`. -/
def Phase.opening : Phase → Bool
  | .openLoadRead | .openCloseRead _ | .openLoadWrite | .openCloseWrite _ | .openCreate
  | .openStoreRead _ _ | .openStoreWrite _ => true
  | _ => false

/-- The call is between its `read` and its `write`. -/
def Phase.writing : Phase → Bool
  | .loadWrite | .write _ => true
  | _ => false

/-- The number of calls between their `read` and their `write`. -/
def writers (calls : List Call) : ℕ := calls.countP fun c => c.phase.writing

/-- The step is not in the way of another call: no call loads a descriptor while
another is in `open_pipe`, none enters `open_pipe` after another has loaded a
descriptor, and at most `slots` are between their `read` and their `write`. -/
def apart (slots : ℕ) (s : State) : Event → Bool
  | .call _ _ => true
  | .advance i answer =>
    match s.calls[i]? with
    | none => true
    | some c =>
      match c.phase with
      | .loadRead => s.calls.all fun d => !d.phase.opening
      | .read fd =>
        if answer.interrupted then true
        else if readLoop [(s.shared.os.read fd).1] = some false then
          (s.calls.eraseIdx i).all fun d => d.phase == .loadRead
        else writers s.calls + 1 ≤ slots
      | _ => true
  | .close => false

/-! ### The invariant -/

/-- The two ends of one pipe are open, and nothing else. -/
structure Joined (os : Os) (readFd writeFd : ℤ) (pipe : ℕ) : Prop where
  descriptors : os.descriptors = [⟨readFd, pipe, .read⟩, ⟨writeFd, pipe, .write⟩]
  ne : readFd ≠ writeFd

/-- How far a call that is in `open_pipe` has got. -/
def Opening (g : Shared) : Phase → Prop
  | .openLoadRead | .openCloseRead _ | .openLoadWrite | .openCloseWrite _ | .openCreate =>
    g.os.descriptors = []
  | .openStoreRead readFd writeFd =>
    ∃ pipe, Joined g.os readFd writeFd pipe ∧ g.os.held pipe = 0
  | .openStoreWrite writeFd =>
    ∃ pipe, Joined g.os g.readFd writeFd pipe ∧ g.os.held pipe = 0
  | _ => False

/-- A call that has at most loaded the first descriptor. -/
def Early (c : Call) : Prop := c.phase = .loadRead ∨ ∃ fd, c.phase = .read fd

/-- A call that uses the descriptors as they are. -/
def Uses (g : Shared) (c : Call) : Prop :=
  c.phase = .loadRead ∨ c.phase = .read g.readFd ∨ c.phase = .loadWrite ∨
    c.phase = .write g.writeFd

/-- What is open, and what the calls in progress may do with it. -/
inductive Inv (slots : ℕ) (g : Shared) (calls : List Call) : Prop where
  | closed (hclosed : g.os.descriptors = []) (hcalls : ∀ c ∈ calls, Early c)
  | opening (c : Call) (rest : List Call) (hperm : calls.Perm (c :: rest))
      (hopening : Opening g c.phase) (hrest : ∀ d ∈ rest, d.phase = .loadRead)
  | joined (pipe n : ℕ) (hjoined : Joined g.os g.readFd g.writeFd pipe)
      (hheld : g.os.held pipe = CHECK_LENGTH * n) (hslots : n + writers calls ≤ slots)
      (hcalls : ∀ c ∈ calls, Uses g c)

section

variable {slots capacity : ℕ} {g : Shared} {calls calls' : List Call}

theorem writers_perm (h : calls.Perm calls') : writers calls = writers calls' := h.countP_eq _

theorem writers_cons (c : Call) (calls : List Call) :
    writers (c :: calls) = writers calls + if c.phase.writing then 1 else 0 :=
  List.countP_cons

theorem Inv.perm (h : Inv slots g calls) (hperm : calls.Perm calls') : Inv slots g calls' := by
  cases h with
  | closed hclosed hcalls =>
    exact .closed hclosed fun c hc => hcalls c (hperm.mem_iff.mpr hc)
  | opening c rest hperm' hopening hrest =>
    exact .opening c rest (hperm.symm.trans hperm') hopening hrest
  | joined pipe n hjoined hheld hslots hcalls =>
    refine .joined pipe n hjoined hheld ?_ fun c hc => hcalls c (hperm.mem_iff.mpr hc)
    rw [← writers_perm hperm]
    exact hslots

theorem Opening.opening {phase : Phase} (h : Opening g phase) : phase.opening = true := by
  cases phase with
  | loadRead => exact absurd h not_false
  | read fd => exact absurd h not_false
  | loadWrite => exact absurd h not_false
  | write fd => exact absurd h not_false
  | _ => rfl

/-! ### The system under the invariant -/

theorem Os.read_of_closed {os : Os} (h : os.descriptors = []) (fd : ℤ) :
    os.read fd = (.error .other, os) := by
  rw [Os.read, Os.lookup, h]
  rfl

theorem Os.close_of_closed {os : Os} (h : os.descriptors = []) (fd : ℤ) : os.close fd = os := by
  rw [Os.close, h]
  show { os with descriptors := [] } = os
  rw [← h]

variable {os : Os} {readFd writeFd : ℤ} {pipe n : ℕ}

theorem Joined.lookup_read (h : Joined os readFd writeFd pipe) :
    os.lookup readFd = some (pipe, .read) := by
  rw [Os.lookup, h.descriptors, List.find?_cons_of_pos (by simp)]
  rfl

theorem Joined.lookup_write (h : Joined os readFd writeFd pipe) :
    os.lookup writeFd = some (pipe, .write) := by
  rw [Os.lookup, h.descriptors, List.find?_cons_of_neg (by simpa using h.ne),
    List.find?_cons_of_pos (by simp)]
  rfl

theorem Joined.isOpen (h : Joined os readFd writeFd pipe) (side : PipeEnd) :
    os.isOpen pipe side = true := by
  rw [Os.isOpen, h.descriptors]
  cases side with
  | read => simp
  | write => simp

theorem Joined.read_empty (h : Joined os readFd writeFd pipe) (hheld : os.held pipe = 0) :
    os.read readFd = (.error .eagain, os) := by
  simp only [Os.read, h.lookup_read, if_pos hheld, h.isOpen, if_true]

theorem Joined.read_held (h : Joined os readFd writeFd pipe)
    (hheld : os.held pipe = CHECK_LENGTH * (n + 1)) :
    os.read readFd = (.ok CHECK_LENGTH,
      { os with held := Function.update os.held pipe (CHECK_LENGTH * n) }) := by
  have hne : os.held pipe ≠ 0 := by
    rw [hheld, CHECK_LENGTH]
    omega
  have hmin : min CHECK_LENGTH (os.held pipe) = CHECK_LENGTH := by
    rw [hheld, CHECK_LENGTH]
    omega
  have hrest : os.held pipe - CHECK_LENGTH = CHECK_LENGTH * n := by
    rw [hheld, CHECK_LENGTH]
    omega
  simp only [Os.read, h.lookup_read, if_neg hne, hmin, hrest]

theorem Joined.write_eq (h : Joined os readFd writeFd pipe)
    (hroom : os.held pipe + CHECK_LENGTH ≤ capacity) (readable : Bool) :
    os.write capacity writeFd readable =
      if readable then (.ok CHECK_LENGTH,
        { os with held := Function.update os.held pipe (os.held pipe + CHECK_LENGTH) })
      else (.error .efault, os) := by
  simp only [Os.write, h.lookup_write, h.isOpen, Bool.not_true, Bool.false_eq_true, if_false,
    if_neg (Nat.not_lt.mpr hroom)]

theorem Joined.update (h : Joined os readFd writeFd pipe) (held : ℕ → ℕ) :
    Joined { os with held := held } readFd writeFd pipe := ⟨h.descriptors, h.ne⟩

theorem Os.createPipe_joined {os' : Os} (hclosed : os.descriptors = [])
    (h : os.createPipe readFd writeFd = some os') :
    Joined os' readFd writeFd os.created ∧ os'.held os.created = 0 := by
  rw [Os.createPipe] at h
  split at h
  · rename_i hfree
    obtain rfl := Option.some.inj h
    refine ⟨⟨?_, hfree.2.2.1⟩, Function.update_self _ _ _⟩
    show [_, _] ++ os.descriptors = _
    rw [hclosed]
    rfl
  · cases h

/-! ### A step of a call -/

/-- The invariant after a move of the call `c`, whose answer is right. -/
def After (slots : ℕ) (g : Shared) (c : Call) (rest : List Call) : Move → Prop
  | .goto phase => Inv slots g ({ c with phase := phase } :: rest)
  | .ret valid => Inv slots g rest ∧ valid = c.mem.validate c.addr

/-- The step of `c` is not in the way of the calls `rest`. -/
structure Apart (slots : ℕ) (g : Shared) (answer : Answer) (c : Call) (rest : List Call) :
    Prop where
  load : c.phase = .loadRead → ∀ d ∈ rest, d.phase.opening = false
  open_ : ∀ fd, c.phase = .read fd → answer.interrupted = false →
    readLoop [(g.os.read fd).1] = some false → ∀ d ∈ rest, d.phase = .loadRead
  write : ∀ fd, c.phase = .read fd → answer.interrupted = false →
    readLoop [(g.os.read fd).1] = some true → writers (c :: rest) + 1 ≤ slots

variable {answer : Answer} {c : Call} {rest : List Call} {g' : Shared} {move : Move} {fd : ℤ}

/-- A step that is interrupted is made again. -/
theorem advance_interrupted (h : answer.interrupted = true)
    (hphase : c.phase = .read fd ∨ c.phase = .write fd) :
    c.advance capacity answer g = some (g, .goto c.phase) := by
  obtain hphase | hphase := hphase
  · simp only [Call.advance, hphase, h, if_true, readLoop]
  · simp only [Call.advance, hphase, h, if_true, writeLoop]

theorem advance_read {result : Except Errno ℕ × Os} {valid : Bool}
    (hanswer : answer.interrupted = false) (hphase : c.phase = .read fd)
    (hread : g.os.read fd = result) (hvalid : readLoop [result.1] = some valid) :
    c.advance capacity answer g = some ({ g with os := result.2 },
      .goto (if valid then .loadWrite else .openLoadRead)) := by
  simp only [Call.advance, hphase, hanswer, Bool.false_eq_true, if_false, hread, hvalid]
  cases valid with
  | true => rfl
  | false => rfl

theorem advance_write {result : Except Errno ℕ × Os} {valid : Bool}
    (hanswer : answer.interrupted = false) (hphase : c.phase = .write fd)
    (hwrite : g.os.write capacity fd (readableAt c.mem c.addr) = result)
    (hvalid : writeLoop [result.1] = some valid) :
    c.advance capacity answer g = some ({ g with os := result.2 }, .ret valid) := by
  simp only [Call.advance, hphase, hanswer, Bool.false_eq_true, if_false, hwrite, hvalid]

/-- Nothing is open: a call that reads is the one that opens the pipe. -/
theorem advance_closed (hclosed : g.os.descriptors = []) (hcalls : ∀ d ∈ c :: rest, Early d)
    (hapart : Apart slots g answer c rest)
    (h : c.advance capacity answer g = some (g', move)) : After slots g' c rest move := by
  have hrest : ∀ d ∈ rest, Early d := fun d hd => hcalls d (List.mem_cons_of_mem c hd)
  obtain hphase | ⟨fd, hphase⟩ := hcalls c List.mem_cons_self
  · simp only [Call.advance, hphase, Option.some.injEq, Prod.mk.injEq] at h
    obtain ⟨rfl, rfl⟩ := h
    exact .closed hclosed (List.forall_mem_cons.mpr ⟨.inr ⟨_, rfl⟩, hrest⟩)
  · cases hanswer : answer.interrupted with
    | true =>
      rw [advance_interrupted hanswer (.inl hphase)] at h
      obtain ⟨rfl, rfl⟩ := Prod.mk.inj (Option.some.inj h)
      exact .closed hclosed hcalls
    | false =>
      have hread := Os.read_of_closed hclosed fd
      rw [advance_read hanswer hphase hread rfl] at h
      obtain ⟨rfl, rfl⟩ := Prod.mk.inj (Option.some.inj h)
      refine .opening _ rest (List.Perm.refl _) hclosed ?_
      exact hapart.open_ fd hphase hanswer (by rw [hread]; rfl)

/-- A call opens the pipe, and no other moves. -/
theorem advance_opening (hslots : 1 ≤ slots) (hopening : Opening g c.phase)
    (hrest : ∀ d ∈ rest, d.phase = .loadRead)
    (h : c.advance capacity answer g = some (g', move)) : After slots g' c rest move := by
  have hgoto : ∀ {g : Shared} {phase : Phase}, Opening g phase →
      Inv slots g ({ c with phase := phase } :: rest) :=
    fun hopening => .opening _ rest (List.Perm.refl _) hopening hrest
  cases hphase : c.phase with
  | openLoadRead =>
    rw [hphase] at hopening
    simp only [Call.advance, hphase, Option.some.injEq, Prod.mk.injEq] at h
    obtain ⟨rfl, rfl⟩ := h
    exact hgoto hopening
  | openCloseRead fd =>
    rw [hphase] at hopening
    simp only [Call.advance, hphase, Os.close_of_closed hopening, Option.some.injEq,
      Prod.mk.injEq] at h
    obtain ⟨rfl, rfl⟩ := h
    exact hgoto hopening
  | openLoadWrite =>
    rw [hphase] at hopening
    simp only [Call.advance, hphase, Option.some.injEq, Prod.mk.injEq] at h
    obtain ⟨rfl, rfl⟩ := h
    exact hgoto hopening
  | openCloseWrite fd =>
    rw [hphase] at hopening
    simp only [Call.advance, hphase, Os.close_of_closed hopening, Option.some.injEq,
      Prod.mk.injEq] at h
    obtain ⟨rfl, rfl⟩ := h
    exact hgoto hopening
  | openCreate =>
    rw [hphase] at hopening
    simp only [Call.advance, hphase, Option.map_eq_some_iff, Prod.mk.injEq] at h
    obtain ⟨os', hos, rfl, rfl⟩ := h
    exact hgoto ⟨_, Os.createPipe_joined hopening hos⟩
  | openStoreRead readFd writeFd =>
    rw [hphase] at hopening
    simp only [Call.advance, hphase, Option.some.injEq, Prod.mk.injEq] at h
    obtain ⟨rfl, rfl⟩ := h
    exact hgoto hopening
  | openStoreWrite writeFd =>
    rw [hphase] at hopening
    simp only [Call.advance, hphase, Option.some.injEq, Prod.mk.injEq] at h
    obtain ⟨rfl, rfl⟩ := h
    obtain ⟨pipe, hjoined, hheld⟩ := hopening
    -- the only writer is this call, and the pipe is empty
    have hwriters : writers rest = 0 :=
      List.countP_eq_zero.mpr fun d hd => by simp [hrest d hd, Phase.writing]
    refine .joined pipe 0 hjoined hheld ?_ (List.forall_mem_cons.mpr ⟨.inr (.inr (.inl rfl)), ?_⟩)
    · rw [writers_cons, hwriters]
      exact hslots
    · exact fun d hd => .inl (hrest d hd)
  | _ =>
    rw [hphase] at hopening
    exact absurd hopening not_false

/-- The pipe is open: a call takes out what is in it before it writes, and finds
room. -/
theorem advance_joined (hcapacity : CHECK_LENGTH * slots ≤ capacity)
    (hjoined : Joined g.os g.readFd g.writeFd pipe) (hheld : g.os.held pipe = CHECK_LENGTH * n)
    (hslots : n + writers (c :: rest) ≤ slots) (hcalls : ∀ d ∈ c :: rest, Uses g d)
    (hapart : Apart slots g answer c rest)
    (h : c.advance capacity answer g = some (g', move)) : After slots g' c rest move := by
  have hrest : ∀ d ∈ rest, Uses g d := fun d hd => hcalls d (List.mem_cons_of_mem c hd)
  have hcount := hslots
  rw [writers_cons] at hcount
  obtain hphase | hphase | hphase | hphase := hcalls c List.mem_cons_self
  · -- the call loads the descriptor it reads from
    simp only [Call.advance, hphase, Option.some.injEq, Prod.mk.injEq] at h
    obtain ⟨rfl, rfl⟩ := h
    refine .joined pipe n hjoined hheld ?_ (List.forall_mem_cons.mpr ⟨.inr (.inl rfl), hrest⟩)
    rw [writers_cons]
    rw [hphase] at hcount
    exact hcount
  · -- it reads
    cases hanswer : answer.interrupted with
    | true =>
      rw [advance_interrupted hanswer (.inl hphase)] at h
      obtain ⟨rfl, rfl⟩ := Prod.mk.inj (Option.some.inj h)
      exact .joined pipe n hjoined hheld hslots hcalls
    | false =>
      cases n with
      | zero =>
        have hread := hjoined.read_empty hheld
        have hroom := hapart.write _ hphase hanswer (by rw [hread]; rfl)
        rw [writers_cons, hphase] at hroom
        rw [advance_read hanswer hphase hread rfl] at h
        obtain ⟨rfl, rfl⟩ := Prod.mk.inj (Option.some.inj h)
        refine .joined pipe 0 hjoined hheld ?_
          (List.forall_mem_cons.mpr ⟨.inr (.inr (.inl rfl)), hrest⟩)
        rw [writers_cons, Nat.zero_add]
        exact hroom
      | succ n =>
        rw [hphase] at hcount
        rw [advance_read hanswer hphase (hjoined.read_held hheld) rfl] at h
        obtain ⟨rfl, rfl⟩ := Prod.mk.inj (Option.some.inj h)
        refine .joined pipe n (hjoined.update _) (Function.update_self _ _ _) ?_
          (List.forall_mem_cons.mpr ⟨.inr (.inr (.inl rfl)), hrest⟩)
        -- what is taken out makes room for what will be written
        rw [writers_cons]
        show n + (writers rest + 1) ≤ slots
        have hsum : n + 1 + (writers rest + 0) ≤ slots := hcount
        omega
  · -- it loads the descriptor it writes to
    simp only [Call.advance, hphase, Option.some.injEq, Prod.mk.injEq] at h
    obtain ⟨rfl, rfl⟩ := h
    refine .joined pipe n hjoined hheld ?_
      (List.forall_mem_cons.mpr ⟨.inr (.inr (.inr rfl)), hrest⟩)
    rw [writers_cons]
    rw [hphase] at hcount
    exact hcount
  · -- it writes
    cases hanswer : answer.interrupted with
    | true =>
      rw [advance_interrupted hanswer (.inr hphase)] at h
      obtain ⟨rfl, rfl⟩ := Prod.mk.inj (Option.some.inj h)
      exact .joined pipe n hjoined hheld hslots hcalls
    | false =>
      rw [hphase] at hcount
      have hsum : n + (writers rest + 1) ≤ slots := hcount
      have hroom : g.os.held pipe + CHECK_LENGTH ≤ capacity := by
        rw [hheld]
        rw [CHECK_LENGTH] at hcapacity ⊢
        omega
      have hwrite := hjoined.write_eq hroom (readableAt c.mem c.addr)
      have hvalidate : c.mem.validate c.addr = readableAt c.mem c.addr := by
        rw [Memory.validate, bne_iff_ne.mpr c.addr_ne, Bool.true_and]
        rfl
      cases hreadable : readableAt c.mem c.addr with
      | true =>
        rw [hreadable, if_pos rfl, ← hreadable] at hwrite
        rw [advance_write hanswer hphase hwrite rfl] at h
        obtain ⟨rfl, rfl⟩ := Prod.mk.inj (Option.some.inj h)
        refine ⟨.joined pipe (n + 1) (hjoined.update _) ?_ (by omega) hrest, ?_⟩
        · show Function.update _ _ _ _ = _
          rw [Function.update_self, hheld, Nat.mul_succ]
        · rw [hvalidate, hreadable]
          rfl
      | false =>
        rw [hreadable, if_neg Bool.false_ne_true, ← hreadable] at hwrite
        rw [advance_write hanswer hphase hwrite rfl] at h
        obtain ⟨rfl, rfl⟩ := Prod.mk.inj (Option.some.inj h)
        refine ⟨.joined pipe n hjoined hheld (by omega) hrest, ?_⟩
        rw [hvalidate, hreadable]

/-- **A step of a call keeps the invariant** and, if it is the last, answers
what the memory says. -/
theorem Inv.advance (hslots : 1 ≤ slots) (hcapacity : CHECK_LENGTH * slots ≤ capacity)
    (hinv : Inv slots g (c :: rest)) (hapart : Apart slots g answer c rest)
    (h : c.advance capacity answer g = some (g', move)) : After slots g' c rest move := by
  cases hinv with
  | closed hclosed hcalls => exact advance_closed hclosed hcalls hapart h
  | opening o rest' hperm hopening hrest =>
    obtain rfl | hmem := List.mem_cons.mp (hperm.mem_iff.mp (List.mem_cons_self (a := c)))
    · refine advance_opening hslots hopening (fun d hd => hrest d ?_) h
      exact (hperm.cons_inv).mem_iff.mp hd
    · -- another call would have to load a descriptor while one opens the pipe
      have hphase := hrest c hmem
      have hne : o ≠ c := by
        rintro rfl
        rw [hphase] at hopening
        exact hopening
      have ho : o ∈ rest := by
        have hall := hperm.mem_iff.mpr (List.mem_cons_self (a := o))
        exact (List.mem_cons.mp hall).resolve_left hne
      have hnot := hapart.load hphase o ho
      rw [hopening.opening] at hnot
      cases hnot
  | joined pipe n hjoined hheld hsum hcalls =>
    exact advance_joined hcapacity hjoined hheld hsum hcalls hapart h

theorem Inv.call (h : Inv slots g calls) (hphase : c.phase = .loadRead) :
    Inv slots g (calls ++ [c]) := by
  suffices hfront : Inv slots g (c :: calls) from
    hfront.perm (List.perm_append_singleton c calls).symm
  cases h with
  | closed hclosed hcalls =>
    exact .closed hclosed (List.forall_mem_cons.mpr ⟨.inl hphase, hcalls⟩)
  | opening o rest hperm hopening hrest =>
    refine .opening o (c :: rest) ((hperm.cons c).trans (.swap _ _ _)) hopening ?_
    exact List.forall_mem_cons.mpr ⟨hphase, hrest⟩
  | joined pipe n hjoined hheld hslots hcalls =>
    refine .joined pipe n hjoined hheld ?_ (List.forall_mem_cons.mpr ⟨.inl hphase, hcalls⟩)
    rw [writers_cons, hphase]
    exact hslots

/-- When the process has closed both descriptors, nothing is open. -/
theorem Inv.close (h : Inv slots g []) :
    ((g.os.close g.readFd).close g.writeFd).descriptors = [] := by
  cases h with
  | closed hclosed _ =>
    rw [Os.close_of_closed hclosed, Os.close_of_closed hclosed, hclosed]
  | opening c rest hperm _ _ =>
    cases hperm.nil_eq
  | joined pipe n hjoined _ _ _ =>
    show (g.os.descriptors.filter _).filter _ = []
    rw [hjoined.descriptors]
    simp

theorem Os.onePipe_of_closed {bound : ℕ} (h : os.descriptors = []) : os.OnePipe bound := by
  refine ⟨?_, ?_, ?_⟩
  · rw [h]
    exact Nat.zero_le 2
  · rw [h]
    exact List.forall_mem_nil _
  · rw [h]
    exact List.forall_mem_nil _

theorem Joined.onePipe {bound : ℕ} (h : Joined os readFd writeFd pipe)
    (hheld : os.held pipe ≤ bound) : os.OnePipe bound := by
  have hpipe : ∀ d ∈ os.descriptors, d.pipe = pipe := by
    rw [h.descriptors]
    simp
  refine ⟨?_, fun d hd d' hd' => (hpipe d hd).trans (hpipe d' hd').symm, fun d hd => ?_⟩
  · rw [h.descriptors]
    exact le_refl 2
  · rw [hpipe d hd]
    exact hheld

theorem Opening.onePipe {bound : ℕ} {phase : Phase} (h : Opening g phase) :
    g.os.OnePipe bound := by
  cases phase with
  | openStoreRead readFd writeFd =>
    obtain ⟨pipe, hjoined, hheld⟩ := h
    exact hjoined.onePipe (by omega)
  | openStoreWrite writeFd =>
    obtain ⟨pipe, hjoined, hheld⟩ := h
    exact hjoined.onePipe (by omega)
  | loadRead => exact absurd h not_false
  | read fd => exact absurd h not_false
  | loadWrite => exact absurd h not_false
  | write fd => exact absurd h not_false
  | _ => exact Os.onePipe_of_closed h

/-- The pipe holds what at most `slots` calls have written. -/
theorem Inv.onePipe (h : Inv slots g calls) : g.os.OnePipe (CHECK_LENGTH * slots) := by
  cases h with
  | closed hclosed _ => exact Os.onePipe_of_closed hclosed
  | opening _ _ _ hopening _ => exact hopening.onePipe
  | joined pipe n hjoined hheld hsum _ =>
    refine hjoined.onePipe ?_
    rw [hheld]
    exact Nat.mul_le_mul_left _ (by omega)

/-- A write that is due finds room. -/
theorem Inv.room (hcapacity : CHECK_LENGTH * slots ≤ capacity) (h : Inv slots g calls)
    (hc : c ∈ calls) (hphase : c.phase = .write fd) (readable : Bool) :
    (g.os.write capacity fd readable).1 ≠ .error .eagain := by
  cases h with
  | closed _ hcalls =>
    obtain hearly | ⟨_, hearly⟩ := hcalls c hc
    · cases hphase.symm.trans hearly
    · cases hphase.symm.trans hearly
  | opening o rest hperm hopening hrest =>
    obtain rfl | hmem := List.mem_cons.mp (hperm.mem_iff.mp hc)
    · rw [hphase] at hopening
      exact absurd hopening not_false
    · cases hphase.symm.trans (hrest c hmem)
  | joined pipe n hjoined hheld hsum hcalls =>
    obtain huses | huses | huses | huses := hcalls c hc
    · cases hphase.symm.trans huses
    · cases hphase.symm.trans huses
    · cases hphase.symm.trans huses
    · obtain rfl := Phase.write.inj (hphase.symm.trans huses)
      -- the call is itself one of the writers, so a slot is left for what it writes
      have hpos : 0 < writers calls :=
        List.countP_pos_iff.mpr ⟨c, hc, by rw [hphase]; rfl⟩
      rw [hjoined.write_eq (by rw [hheld]; rw [CHECK_LENGTH] at hcapacity ⊢; omega)]
      cases readable with
      | true => simp
      | false => simp

end

/-! ### A step of the system -/

/-- The invariant holds, and every call that has returned was right. -/
structure Sound (slots : ℕ) (s : State) : Prop where
  inv : Inv slots s.shared s.calls
  results : ∀ r ∈ s.results, r.valid = r.mem.validate r.addr

theorem sound_init (slots : ℕ) : Sound slots .init :=
  ⟨.closed rfl (List.forall_mem_nil _), List.forall_mem_nil _⟩

variable {slots capacity : ℕ} {s s' : State}

/-- What a step of the `i`th call does. -/
theorem State.step_advance {i : ℕ} {answer : Answer}
    (h : s.step capacity (.advance i answer) = some s') :
    ∃ c shared move, s.calls[i]? = some c ∧
      c.advance capacity answer s.shared = some (shared, move) ∧ s'.shared = shared ∧
      ((∃ phase, move = .goto phase ∧ s'.calls = s.calls.set i { c with phase := phase } ∧
        s'.results = s.results) ∨
      ∃ valid, move = .ret valid ∧ s'.calls = s.calls.eraseIdx i ∧
        s'.results = ⟨c.mem, c.addr, valid⟩ :: s.results) := by
  simp only [State.step] at h
  split at h
  · cases h
  · rename_i c hc
    split at h
    · cases h
    · rename_i shared phase hadvance
      obtain rfl := Option.some.inj h
      exact ⟨c, shared, _, hc, hadvance, rfl, .inl ⟨phase, rfl, rfl, rfl⟩⟩
    · rename_i shared valid hadvance
      obtain rfl := Option.some.inj h
      exact ⟨c, shared, _, hc, hadvance, rfl, .inr ⟨valid, rfl, rfl, rfl⟩⟩

/-- The `i`th call and the others. -/
theorem perm_eraseIdx {calls : List Call} {i : ℕ} {c : Call} (hc : calls[i]? = some c) :
    calls.Perm (c :: calls.eraseIdx i) := by
  obtain ⟨hi, rfl⟩ := List.getElem?_eq_some_iff.mp hc
  exact (List.getElem_cons_eraseIdx_perm hi).symm

theorem apart_advance {i : ℕ} {answer : Answer} {c : Call} (hc : s.calls[i]? = some c)
    (h : apart slots s (.advance i answer) = true) :
    Apart slots s.shared answer c (s.calls.eraseIdx i) := by
  simp only [apart, hc] at h
  refine ⟨fun hphase d hd => ?_, fun fd hphase hanswer hread => ?_,
    fun fd hphase hanswer hread => ?_⟩
  · rw [hphase] at h
    have hall := List.all_eq_true.mp h d (List.mem_of_mem_eraseIdx hd)
    simpa using hall
  · simp only [hphase, hanswer, hread, Bool.false_eq_true, if_false, if_true] at h
    simpa using h
  · simp only [hphase, hanswer, hread, Bool.false_eq_true, if_false] at h
    rw [← writers_perm (perm_eraseIdx hc)]
    simpa using h

theorem Sound.step (hslots : 1 ≤ slots) (hcapacity : CHECK_LENGTH * slots ≤ capacity)
    (h : Sound slots s) {e : Event} (hapart : apart slots s e = true)
    (hstep : s.step capacity e = some s') : Sound slots s' := by
  cases e with
  | call mem addr =>
    simp only [State.step] at hstep
    split at hstep
    · rename_i hzero
      obtain rfl := Option.some.inj hstep
      refine ⟨h.inv, List.forall_mem_cons.mpr ⟨?_, h.results⟩⟩
      rw [hzero]
      rfl
    · obtain rfl := Option.some.inj hstep
      exact ⟨h.inv.call rfl, h.results⟩
  | advance i answer =>
    -- the call that moves is put at the head, and the others keep what they have
    obtain ⟨c, shared, move, hc, hadvance, hshared, hmove⟩ := State.step_advance hstep
    have hi := (List.getElem?_eq_some_iff.mp hc).1
    have hafter := (h.inv.perm (perm_eraseIdx hc)).advance hslots hcapacity
      (apart_advance hc hapart) hadvance
    obtain ⟨phase, rfl, hcalls, hresults⟩ | ⟨valid, rfl, hcalls, hresults⟩ := hmove
    · refine ⟨?_, by rw [hresults]; exact h.results⟩
      rw [hshared, hcalls]
      exact Inv.perm hafter (List.set_perm_cons_eraseIdx hi _).symm
    · obtain ⟨hinv, hvalid⟩ := hafter
      refine ⟨by rw [hshared, hcalls]; exact hinv, ?_⟩
      rw [hresults]
      exact List.forall_mem_cons.mpr ⟨hvalid, h.results⟩
  | close => cases hapart

/-! ### Calls return -/

/-- How many steps of a call are left at most. -/
def Phase.rank : Phase → ℕ
  | .loadRead => 11
  | .read _ => 10
  | .openLoadRead => 9
  | .openCloseRead _ => 8
  | .openLoadWrite => 7
  | .openCloseWrite _ => 6
  | .openCreate => 5
  | .openStoreRead _ _ => 4
  | .openStoreWrite _ => 3
  | .loadWrite => 2
  | .write _ => 1

theorem Phase.rank_pos (phase : Phase) : 0 < phase.rank := by
  cases phase <;> simp [Phase.rank]

theorem Phase.rank_le (phase : Phase) : phase.rank ≤ 11 := by
  cases phase <;> simp [Phase.rank]

theorem Os.read_keeps (os : Os) (fd : ℤ) :
    (os.read fd).2.descriptors = os.descriptors ∧ (os.read fd).2.created = os.created := by
  rw [Os.read]
  split
  · split
    · exact ⟨rfl, rfl⟩
    · exact ⟨rfl, rfl⟩
  · exact ⟨rfl, rfl⟩

theorem Os.write_keeps (capacity : ℕ) (os : Os) (fd : ℤ) (readable : Bool) :
    (os.write capacity fd readable).2.descriptors = os.descriptors ∧
      (os.write capacity fd readable).2.created = os.created := by
  rw [Os.write]
  split
  · split
    · exact ⟨rfl, rfl⟩
    · split
      · exact ⟨rfl, rfl⟩
      · split
        · exact ⟨rfl, rfl⟩
        · exact ⟨rfl, rfl⟩
  · exact ⟨rfl, rfl⟩

/-- Closing leaves numbers free. -/
theorem Os.Free.close {os : Os} {readFd writeFd : ℤ} (h : os.Free readFd writeFd) (fd : ℤ) :
    (os.close fd).Free readFd writeFd :=
  ⟨h.1, h.2.1, h.2.2.1, fun d hd => h.2.2.2 d (List.mem_of_mem_filter hd)⟩

/-- The system itself does not answer with an interruption. -/
theorem Os.readLoop_read (os : Os) (fd : ℤ) :
    ∃ valid, readLoop [(os.read fd).1] = some valid := by
  rw [Os.read]
  split
  · split
    · split
      · exact ⟨true, rfl⟩
      · exact ⟨_, rfl⟩
    · exact ⟨_, rfl⟩
  · exact ⟨false, rfl⟩

theorem Os.writeLoop_write (capacity : ℕ) (os : Os) (fd : ℤ) (readable : Bool) :
    ∃ valid, writeLoop [(os.write capacity fd readable).1] = some valid := by
  rw [Os.write]
  split
  · split
    · exact ⟨false, rfl⟩
    · split
      · exact ⟨false, rfl⟩
      · split
        · exact ⟨_, rfl⟩
        · exact ⟨false, rfl⟩
  · exact ⟨false, rfl⟩

section

variable {capacity : ℕ} {answer : Answer} {g g' : Shared} {c : Call} {phase : Phase}

/-- As long as pipes can be created, a call has a next step. -/
theorem exists_advance (hfree : c.phase = .openCreate → g.os.Free answer.readFd answer.writeFd) :
    ∃ g' move, c.advance capacity answer g = some (g', move) := by
  cases hphase : c.phase with
  | read fd =>
    cases hanswer : answer.interrupted with
    | true => exact ⟨_, _, advance_interrupted hanswer (.inl hphase)⟩
    | false =>
      obtain ⟨valid, hvalid⟩ := g.os.readLoop_read fd
      exact ⟨_, _, advance_read hanswer hphase rfl hvalid⟩
  | openCreate =>
    simp only [Call.advance, hphase, Os.createPipe, if_pos (hfree hphase), Option.map_some]
    exact ⟨_, _, rfl⟩
  | write fd =>
    cases hanswer : answer.interrupted with
    | true => exact ⟨_, _, advance_interrupted hanswer (.inr hphase)⟩
    | false =>
      obtain ⟨valid, hvalid⟩ := g.os.writeLoop_write capacity fd (readableAt c.mem c.addr)
      exact ⟨_, _, advance_write hanswer hphase rfl hvalid⟩
  | _ =>
    simp only [Call.advance, hphase]
    exact ⟨_, _, rfl⟩

/-- A `read` is made again, or answers and takes the call on. -/
theorem advance_read_cases {move : Move} {fd : ℤ} (hphase : c.phase = .read fd)
    (h : c.advance capacity answer g = some (g', move)) :
    (answer.interrupted = true ∧ g' = g ∧ move = .goto (.read fd)) ∨
    ∃ valid : Bool, g' = { g with os := (g.os.read fd).2 } ∧
      move = .goto (if valid then .loadWrite else .openLoadRead) := by
  cases hanswer : answer.interrupted with
  | true =>
    rw [advance_interrupted hanswer (.inl hphase), hphase] at h
    obtain ⟨rfl, rfl⟩ := Prod.mk.inj (Option.some.inj h)
    exact .inl ⟨rfl, rfl, rfl⟩
  | false =>
    obtain ⟨valid, hvalid⟩ := g.os.readLoop_read fd
    rw [advance_read hanswer hphase rfl hvalid] at h
    obtain ⟨rfl, rfl⟩ := Prod.mk.inj (Option.some.inj h)
    exact .inr ⟨valid, rfl, rfl⟩

/-- A `write` is made again, or is the last step. -/
theorem advance_write_cases {move : Move} {fd : ℤ} (hphase : c.phase = .write fd)
    (h : c.advance capacity answer g = some (g', move)) :
    (answer.interrupted = true ∧ g' = g ∧ move = .goto (.write fd)) ∨
    ∃ valid, g' = { g with os := (g.os.write capacity fd (readableAt c.mem c.addr)).2 } ∧
      move = .ret valid := by
  cases hanswer : answer.interrupted with
  | true =>
    rw [advance_interrupted hanswer (.inr hphase), hphase] at h
    obtain ⟨rfl, rfl⟩ := Prod.mk.inj (Option.some.inj h)
    exact .inl ⟨rfl, rfl, rfl⟩
  | false =>
    obtain ⟨valid, hvalid⟩ := g.os.writeLoop_write capacity fd (readableAt c.mem c.addr)
    rw [advance_write hanswer hphase rfl hvalid] at h
    obtain ⟨rfl, rfl⟩ := Prod.mk.inj (Option.some.inj h)
    exact .inr ⟨valid, rfl, rfl⟩

/-- What a step of a call does to the system. -/
theorem advance_os {move : Move} (h : c.advance capacity answer g = some (g', move)) :
    (g'.os.descriptors = g.os.descriptors ∧ g'.os.created = g.os.created) ∨
    (∃ fd, (c.phase = .openCloseRead fd ∨ c.phase = .openCloseWrite fd) ∧
      g'.os = g.os.close fd) ∨
    (c.phase = .openCreate ∧ g.os.createPipe answer.readFd answer.writeFd = some g'.os) := by
  cases hphase : c.phase with
  | read fd =>
    -- a read or a write moves bytes, never descriptors
    obtain ⟨_, rfl, _⟩ | ⟨_, rfl, _⟩ := advance_read_cases hphase h
    · exact .inl ⟨rfl, rfl⟩
    · exact .inl (g.os.read_keeps fd)
  | write fd =>
    obtain ⟨_, rfl, _⟩ | ⟨_, rfl, _⟩ := advance_write_cases hphase h
    · exact .inl ⟨rfl, rfl⟩
    · exact .inl (g.os.write_keeps capacity fd _)
  | openCreate =>
    simp only [Call.advance, hphase, Option.map_eq_some_iff, Prod.mk.injEq] at h
    obtain ⟨os', hos, rfl, _⟩ := h
    exact .inr (.inr ⟨rfl, hos⟩)
  | openCloseRead fd =>
    simp only [Call.advance, hphase, Option.some.injEq, Prod.mk.injEq] at h
    obtain ⟨rfl, _⟩ := h
    exact .inr (.inl ⟨fd, .inl rfl, rfl⟩)
  | openCloseWrite fd =>
    simp only [Call.advance, hphase, Option.some.injEq, Prod.mk.injEq] at h
    obtain ⟨rfl, _⟩ := h
    exact .inr (.inl ⟨fd, .inr rfl, rfl⟩)
  | _ =>
    simp only [Call.advance, hphase, Option.some.injEq, Prod.mk.injEq] at h
    obtain ⟨rfl, _⟩ := h
    exact .inl ⟨rfl, rfl⟩

/-- A step that is not interrupted lowers the rank. -/
theorem advance_lowers (h : c.advance capacity answer g = some (g', .goto phase)) :
    phase.rank < c.phase.rank ∨ (answer.interrupted = true ∧ phase = c.phase) := by
  cases hphase : c.phase with
  | read fd =>
    -- an interrupted call stays where it is; any other goes on
    obtain ⟨hinterrupted, _, hgoto⟩ | ⟨valid, _, hgoto⟩ := advance_read_cases hphase h
    · exact .inr ⟨hinterrupted, Move.goto.inj hgoto⟩
    · obtain rfl := Move.goto.inj hgoto
      cases valid with
      | true => exact .inl (by simp [Phase.rank])
      | false => exact .inl (by simp [Phase.rank])
  | write fd =>
    obtain ⟨hinterrupted, _, hgoto⟩ | ⟨_, _, hret⟩ := advance_write_cases hphase h
    · exact .inr ⟨hinterrupted, Move.goto.inj hgoto⟩
    · cases hret
  | openCreate =>
    simp only [Call.advance, hphase, Option.map_eq_some_iff, Prod.mk.injEq, Move.goto.injEq] at h
    obtain ⟨_, _, _, rfl⟩ := h
    exact .inl (by simp [Phase.rank])
  | _ =>
    simp only [Call.advance, hphase, Option.some.injEq, Prod.mk.injEq, Move.goto.injEq] at h
    obtain ⟨_, rfl⟩ := h
    exact .inl (by simp [Phase.rank])

/-- Until the pipe is made the numbers for it stay free. -/
theorem advance_free (h : c.advance capacity answer g = some (g', .goto phase))
    (hrank : 5 ≤ phase.rank) {readFd writeFd : ℤ} (hfree : g.os.Free readFd writeFd) :
    g'.os.Free readFd writeFd := by
  obtain ⟨hdescriptors, _⟩ | ⟨fd, _, hos⟩ | ⟨hphase, _⟩ := advance_os h
  · refine ⟨hfree.1, hfree.2.1, hfree.2.2.1, ?_⟩
    rw [hdescriptors]
    exact hfree.2.2.2
  · rw [hos]
    exact hfree.close fd
  · -- the phase after this one has rank 4
    simp only [Call.advance, hphase, Option.map_eq_some_iff, Prod.mk.injEq, Move.goto.injEq] at h
    obtain ⟨_, _, _, rfl⟩ := h
    simp [Phase.rank] at hrank

end

/-- A call that is alone returns, however often its steps are interrupted: of
its other steps there are at most as many as its rank. -/
theorem returns {s : State} {c : Call} (hcalls : s.calls = [c]) {readFd writeFd : ℤ}
    (hfree : 5 ≤ c.phase.rank → s.shared.os.Free readFd writeFd) {interrupted : List Bool}
    (hrank : c.phase.rank ≤ interrupted.count false) :
    ∃ answers t valid, answers <+: interrupted ∧
      run (State.step capacity) s (answers.map fun b => .advance 0 ⟨b, readFd, writeFd⟩)
        = some t ∧
      t.calls = [] ∧ t.results = ⟨c.mem, c.addr, valid⟩ :: s.results := by
  induction interrupted generalizing s c with
  | nil =>
    have hpos := c.phase.rank_pos
    rw [List.count_nil] at hrank
    omega
  | cons b bs ih =>
    have hcreate : c.phase = .openCreate → s.shared.os.Free readFd writeFd := by
      intro hphase
      rw [hphase] at hfree
      exact hfree (by decide)
    -- the call can go on; each answer that is not an interrupt brings it nearer
    obtain ⟨g', move, hadvance⟩ :
        ∃ g' move, c.advance capacity ⟨b, readFd, writeFd⟩ s.shared = some (g', move) :=
      exists_advance hcreate
    cases move with
    | ret valid =>
      refine ⟨[b], ⟨g', [], ⟨c.mem, c.addr, valid⟩ :: s.results⟩, valid, ⟨bs, rfl⟩, ?_, rfl, rfl⟩
      simp [run, State.step, hcalls, hadvance]
    | goto phase =>
      have hlower := advance_lowers hadvance
      -- an interrupt changes nothing, and is not counted
      have hcount : phase.rank ≤ bs.count false := by
        rw [List.count_cons] at hrank
        obtain hlt | ⟨hinterrupted, rfl⟩ := hlower
        · split at hrank
          · omega
          · omega
        · obtain rfl : b = true := hinterrupted
          exact hrank
      have hle : phase.rank ≤ c.phase.rank := by
        obtain hlt | ⟨_, rfl⟩ := hlower
        · exact hlt.le
        · exact le_refl _
      obtain ⟨answers, t, valid, hprefix, hrun, ht, hresults⟩ :=
        ih (s := ⟨g', [{ c with phase := phase }], s.results⟩) rfl
          (fun h => advance_free hadvance h (hfree (le_trans h hle))) hcount
      refine ⟨b :: answers, t, valid, List.cons_prefix_cons.mpr ⟨rfl, hprefix⟩, ?_, ht, hresults⟩
      rw [List.map_cons, run]
      simp only [State.step, hcalls, List.getElem?_cons_zero, hadvance, List.set_cons_zero,
        Option.bind_some]
      exact hrun

/-! ### Calls that do not overlap -/

/-- A call begins, or the process closes the descriptors, only when no call is in
progress. -/
def nonOverlapping (s : State) : Event → Bool
  | .advance _ _ => true
  | _ => s.calls.isEmpty

theorem eq_singleton {calls : List Call} {c : Call} (hc : c ∈ calls) (hlength : calls.length ≤ 1) :
    calls = [c] := by
  obtain ⟨d, rfl⟩ := List.length_eq_one_iff.mp (le_antisymm hlength (List.length_pos_of_mem hc))
  rw [List.mem_singleton.mp hc]

theorem apart_of_alone {i : ℕ} (hlength : s.calls.length ≤ 1) (answer : Answer) :
    apart 1 s (.advance i answer) = true := by
  simp only [apart]
  split
  · rfl
  · rename_i c hc
    -- the call is the only one, so there is nothing to keep apart
    have hcalls : s.calls = [c] := eq_singleton (List.mem_of_getElem? hc) hlength
    have hi : i = 0 := by
      obtain ⟨hi, _⟩ := List.getElem?_eq_some_iff.mp hc
      omega
    cases hphase : c.phase with
    | loadRead => simp [hcalls, hphase, Phase.opening]
    | read fd =>
      have hwriters : writers s.calls = 0 := by
        rw [hcalls, writers_cons, hphase]
        rfl
      rw [hwriters, hcalls, hi]
      simp
    | _ => rfl

/-- Calls that do not overlap keep the invariant, with one slot. -/
theorem Sound.step_alone (hcapacity : CHECK_LENGTH ≤ capacity) {e : Event}
    (h : Sound 1 s ∧ s.calls.length ≤ 1) (he : nonOverlapping s e = true)
    (hstep : s.step capacity e = some s') : Sound 1 s' ∧ s'.calls.length ≤ 1 := by
  have hcap : CHECK_LENGTH * 1 ≤ capacity := by omega
  cases e with
  | call mem addr =>
    refine ⟨h.1.step (le_refl 1) hcap rfl hstep, ?_⟩
    have hnil : s.calls = [] := List.isEmpty_iff.mp he
    simp only [State.step] at hstep
    split at hstep
    · obtain rfl := Option.some.inj hstep
      exact h.2
    · obtain rfl := Option.some.inj hstep
      simp [hnil]
  | advance i answer =>
    refine ⟨h.1.step (le_refl 1) hcap (apart_of_alone h.2 answer) hstep, ?_⟩
    obtain ⟨c, _, _, _, _, _, ⟨_, _, hcalls, _⟩ | ⟨_, _, hcalls, _⟩⟩ := State.step_advance hstep
    · rw [hcalls, List.length_set]
      exact h.2
    · rw [hcalls]
      exact (List.length_eraseIdx_le _ _).trans h.2
  | close =>
    -- no call is in progress, so the close takes no descriptor from under one
    have hnil : s.calls = [] := List.isEmpty_iff.mp he
    obtain rfl := Option.some.inj hstep
    refine ⟨⟨?_, h.1.results⟩, h.2⟩
    show Inv 1 _ s.calls
    have hinv := h.1.inv
    rw [hnil] at hinv ⊢
    exact .closed hinv.close (List.forall_mem_nil _)

theorem validate_iff (mem : Memory) (addr : ℕ) : mem.validate addr = true ↔
    addr ≠ 0 ∧ ∀ i < CHECK_LENGTH, mem.readable (addr + i) = true := by
  rw [Memory.validate, Bool.and_eq_true, bne_iff_ne, List.all_eq_true]
  simp only [List.mem_range]
  rfl

/-- **Calls that do not overlap answer correctly**, whatever signals interrupt
and whenever the process closes the descriptors in between: at most one pipe is
open and holds what one call has written, every write finds room, every call
that has returned was right, and the call in progress returns. -/
theorem sequential (hcapacity : CHECK_LENGTH ≤ capacity) {es : List Event}
    (hrun : run (State.step capacity) .init es = some s)
    (hes : Along (State.step capacity) (fun s e => nonOverlapping s e = true) .init es) :
    s.shared.os.OnePipe CHECK_LENGTH ∧
    (∀ c ∈ s.calls, ∀ fd, c.phase = .write fd →
      (s.shared.os.write capacity fd (readableAt c.mem c.addr)).1 ≠ .error .eagain) ∧
    (∀ r ∈ s.results, r.valid = true ↔
      r.addr ≠ 0 ∧ ∀ i < CHECK_LENGTH, r.mem.readable (r.addr + i) = true) ∧
    s.calls.length ≤ 1 ∧
    ∀ c ∈ s.calls, ∀ readFd writeFd, s.shared.os.Free readFd writeFd →
      ∀ interrupted : List Bool, 11 ≤ interrupted.count false →
        ∃ answers t valid, answers <+: interrupted ∧
          run (State.step capacity) s (answers.map fun b => .advance 0 ⟨b, readFd, writeFd⟩)
            = some t ∧
          t.calls = [] ∧ t.results = ⟨c.mem, c.addr, valid⟩ :: s.results := by
  have hstep : ∀ (s : State) e s', (Sound 1 s ∧ s.calls.length ≤ 1) → nonOverlapping s e = true →
      State.step capacity s e = some s' → Sound 1 s' ∧ s'.calls.length ≤ 1 :=
    fun s e s' h he => Sound.step_alone hcapacity h he
  -- the calls follow one another, so one slot of the pipe is enough
  obtain ⟨hsound, hlength⟩ := run_invariant_along hstep ⟨sound_init 1, Nat.zero_le 1⟩ hes hrun
  refine ⟨hsound.inv.onePipe, fun c hc fd hphase => ?_, fun r hr => ?_, hlength,
    fun c hc readFd writeFd hfree interrupted hcount => ?_⟩
  · exact hsound.inv.room (by omega) hc hphase _
  · rw [hsound.results r hr, validate_iff]
  · exact returns (eq_singleton hc hlength) (fun _ => hfree) (le_trans c.phase.rank_le hcount)

end Pprof.AddrValidate

/-! ### A pipe that the process closes -/

namespace Pprof.Given

open AddrValidate

/-- A memory without its first page. -/
def mapped : Memory := ⟨fun addr => 0x1000 ≤ addr, fun _ => 0⟩

/-- `n` steps of the `i`th call; a pipe it makes gets these numbers. -/
def advances (n i : ℕ) (readFd writeFd : ℤ) : List AddrValidate.Event :=
  List.replicate n (.advance i ⟨false, readFd, writeFd⟩)

/-- A call opens the pipe, the process closes it, and two calls follow; the
second address is not readable. -/
def reopened : List AddrValidate.Event :=
  [.call mapped 0x7FFE00001000] ++ advances 11 0 3 4 ++ [.close, .call mapped 0x7FFE00001000] ++
    advances 1 0 3 4 ++ [.advance 0 ⟨true, 3, 4⟩] ++ advances 10 0 5 6 ++
    [.call mapped 0, .call mapped 0xFFF] ++ advances 3 0 7 8

end Pprof.Given

namespace Pprof.AddrValidate

open Given

theorem sequential_reopened :
    ∃ s : State, run (State.step 65536) .init reopened = some s ∧
      s.shared.os.OnePipe CHECK_LENGTH ∧
      s.results.map Result.valid = [false, true, true] := by
  have hrun : run (State.step 65536) .init reopened = some _ := rfl
  obtain ⟨honePipe, _⟩ := sequential (by decide) hrun (by decide)
  exact ⟨_, hrun, honePipe, rfl⟩

end Pprof.AddrValidate
