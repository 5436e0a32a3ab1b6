/-
Probing an address.

`validate` of `addr_validate.rs` asks the system whether an address can be read:
it has the bytes there written into a pipe, and takes out what is in the pipe
before.  `PipeCalls` is how the calls of the system answer during one probe;
a call that was interrupted by a signal is made again.

* `validate_sound` — an address that is accepted can be read, as long as no
  bytes are written that cannot be;
* `validate_eq` — with a pipe that works the probe answers what
  `Memory.validate` says.
-/
import Pprof.Backtrace

namespace Pprof.AddrValidate

/-- `Errno`, as far as the probe tells errors apart. -/
inductive Errno where
  | eintr
  | eagain
  | efault
  | other
  deriving DecidableEq

/-- What the system answers during a probe: the calls of `read`, whether a new
pipe can be opened, and the calls of `write`. -/
structure PipeCalls where
  reads : List (Except Errno ℕ)
  openPipe : Bool
  writes : List (Except Errno ℕ)

/-- `CHECK_LENGTH`: two words. -/
def CHECK_LENGTH : ℕ := 16

/-- The loop that takes the bytes out of the pipe: whether the pipe can be used;
`none` as long as it is only interrupted. -/
def readLoop : List (Except Errno ℕ) → Option Bool
  | [] => none
  | .ok bytes :: _ => some (0 < bytes)
  | .error .eintr :: answers => readLoop answers
  | .error .eagain :: _ => some true
  | .error _ :: _ => some false

/-- The loop that writes the bytes at the address into the pipe. -/
def writeLoop : List (Except Errno ℕ) → Option Bool
  | [] => none
  | .ok bytes :: _ => some (0 < bytes)
  | .error .eintr :: answers => writeLoop answers
  | .error _ :: _ => some false

/-- `validate`. -/
def validate (calls : PipeCalls) (addr : ℕ) : Option Bool :=
  if addr = 0 then some false
  else
    (readLoop calls.reads).bind fun validRead =>
      if !validRead && !calls.openPipe then some false else writeLoop calls.writes

/-- The bytes the probe asks for can be read. -/
def readableAt (mem : Memory) (addr : ℕ) : Bool :=
  (List.range CHECK_LENGTH).all fun i => mem.readable (addr + i)

theorem writeLoop_eq_true {answers : List (Except Errno ℕ)} (h : writeLoop answers = some true) :
    ∃ bytes, 0 < bytes ∧ .ok bytes ∈ answers := by
  induction answers with
  | nil => cases h
  | cons answer answers ih =>
    cases answer with
    | ok bytes =>
      exact ⟨bytes, of_decide_eq_true (Option.some.inj h), List.mem_cons_self⟩
    | error err =>
      cases err with
      | eintr =>
        obtain ⟨bytes, hpos, hmem⟩ := ih h
        exact ⟨bytes, hpos, List.mem_cons_of_mem _ hmem⟩
      | _ => cases h

/-- An address that is accepted can be read, if the system writes no bytes that
cannot be. -/
theorem validate_sound {calls : PipeCalls} {mem : Memory} {addr : ℕ}
    (hwrites : ∀ bytes, 0 < bytes → .ok bytes ∈ calls.writes → readableAt mem addr = true)
    (h : validate calls addr = some true) : mem.validate addr = true := by
  rw [validate] at h
  split at h
  · cases h
  · next hne =>
    obtain ⟨validRead, _, hwrite⟩ := Option.bind_eq_some_iff.mp h
    split at hwrite
    · cases hwrite
    · obtain ⟨bytes, hpos, hmem⟩ := writeLoop_eq_true hwrite
      rw [Memory.validate, Bool.and_eq_true, bne_iff_ne]
      exact ⟨hne, hwrites bytes hpos hmem⟩

/-- A pipe that works: it can be read or opened anew, and after some
interruptions a write takes all the bytes, or fails because they cannot be
read. -/
structure PipeCalls.Works (calls : PipeCalls) (mem : Memory) (addr : ℕ) : Prop where
  usable : ∃ validRead, readLoop calls.reads = some validRead ∧
    (validRead = true ∨ calls.openPipe = true)
  writes : ∃ interrupts, calls.writes = List.replicate interrupts (.error .eintr) ++
    [if readableAt mem addr then .ok CHECK_LENGTH else .error .efault]

theorem writeLoop_interrupted (interrupts : ℕ) (answers : List (Except Errno ℕ)) :
    writeLoop (List.replicate interrupts (.error .eintr) ++ answers) = writeLoop answers := by
  induction interrupts with
  | zero => rfl
  | succ interrupts ih =>
    rw [List.replicate_succ, List.cons_append, writeLoop]
    exact ih

/-- With a pipe that works the probe says whether the address is not null and
its bytes can be read. -/
theorem validate_eq {calls : PipeCalls} {mem : Memory} {addr : ℕ} (h : calls.Works mem addr) :
    validate calls addr = some (mem.validate addr) := by
  obtain ⟨validRead, hread, husable⟩ := h.usable
  obtain ⟨interrupts, hwrites⟩ := h.writes
  rw [validate, Memory.validate]
  by_cases hzero : addr = 0
  · rw [if_pos hzero, hzero]
    rfl
  · have hopen : ¬ (!validRead && !calls.openPipe) = true := by
      obtain husable | husable := husable <;> simp [husable]
    rw [if_neg hzero, hread, Option.bind_some, if_neg hopen, hwrites, writeLoop_interrupted,
      bne_iff_ne.mpr hzero, Bool.true_and, ← CHECK_LENGTH, ← readableAt]
    cases readableAt mem addr <;> rfl

end Pprof.AddrValidate
