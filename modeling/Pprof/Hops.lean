/-
What `framehop` reads.

The unwinder of the crate reads the stack of the interrupted thread through the
closure `read_stack` only, which rounds the address down to a multiple of eight
and asks `validate` first.  What it asks for, and what it makes of the answers,
is a parameter here: a `Hop` is its way from one frame to the next.  A read of
an address that is not aligned, or of bytes that cannot be read, is a fault.

* `Hop.run_fst`, `Hop.guarded` — no hop faults, and each word is read right
  after its address was accepted;
* `Hop.run_congr` — a hop depends on nothing but the words that can be read so;
* `iterFrames_state` — without its accesses the loop is that of `Trace.trace`;
* `hops_guarded` — with the closure of the handler the walk ends without a
  fault, and the handler records what memory that agrees on these words makes it
  record.
-/
import Pprof.Backtrace

namespace Pprof

/-! ### Reading the stack -/

/-- `read` of a `*const u64`; `none` is a fault. -/
def Memory.readWord (mem : Memory) (addr : ℕ) : Option ℕ :=
  if addr % 8 = 0 ∧ (List.range 8).all fun i => mem.readable (addr + i) then some (mem.word addr)
  else none

/-- The 16 bytes that `validate` asks for contain the word. -/
theorem Memory.readWord_of_validate {mem : Memory} {addr : ℕ} (haddr : addr % 8 = 0)
    (h : mem.validate addr = true) : mem.readWord addr = some (mem.word addr) := by
  rw [validate, Bool.and_eq_true, List.all_eq_true] at h
  rw [readWord, if_pos]
  refine ⟨haddr, List.all_eq_true.mpr fun i hi => h.2 i ?_⟩
  have hlt := List.mem_range.mp hi
  exact List.mem_range.mpr (by omega)

/-- What `read_stack` does with an address. -/
inductive Probe where
  | validate (addr : ℕ) (accepted : Bool)
  | read (addr : ℕ)
  deriving DecidableEq

/-- `addr & !0b111`. -/
def alignedAddr (addr : ℕ) : ℕ := addr - addr % 8

theorem alignedAddr_mod (addr : ℕ) : alignedAddr addr % 8 = 0 := by
  rw [alignedAddr]
  omega

/-- `read_stack`: its answer, `none` after a fault, and what it does. -/
def readStack (mem : Memory) (addr : ℕ) : Option (Option ℕ) × List Probe :=
  if mem.validate (alignedAddr addr) then
    ((mem.readWord (alignedAddr addr)).map some,
      [.validate (alignedAddr addr) true, .read (alignedAddr addr)])
  else (some none, [.validate (alignedAddr addr) false])

/-- The word at an address, if it is accepted. -/
def Memory.wordAt (mem : Memory) (addr : ℕ) : Option ℕ :=
  if mem.validate (alignedAddr addr) then some (mem.word (alignedAddr addr)) else none

/-- Reading the stack does not fault. -/
theorem readStack_fst (mem : Memory) (addr : ℕ) :
    (readStack mem addr).1 = some (mem.wordAt addr) := by
  rw [readStack, Memory.wordAt]
  by_cases hvalid : mem.validate (alignedAddr addr) = true
  · rw [if_pos hvalid, if_pos hvalid, Memory.readWord_of_validate (alignedAddr_mod addr) hvalid]
    rfl
  · rw [if_neg hvalid, if_neg hvalid]

/-- Each read is of an aligned address whose 16 bytes were accepted right
before. -/
def Guarded (mem : Memory) : List Probe → Prop
  | [] => True
  | .validate a false :: log => mem.validate a = false ∧ Guarded mem log
  | .validate a true :: .read b :: log =>
    b = a ∧ a % 8 = 0 ∧ mem.validate a = true ∧ Guarded mem log
  | .validate _ true :: _ => False
  | .read _ :: _ => False

theorem guarded_readStack {mem : Memory} {log : List Probe} (h : Guarded mem log) (addr : ℕ) :
    Guarded mem ((readStack mem addr).2 ++ log) := by
  rw [readStack]
  by_cases hvalid : mem.validate (alignedAddr addr) = true
  · rw [if_pos hvalid]
    exact ⟨rfl, alignedAddr_mod addr, hvalid, h⟩
  · rw [if_neg hvalid]
    exact ⟨Bool.eq_false_iff.mpr hvalid, h⟩

/-- Memories that cannot be told apart by reading the stack. -/
def Memory.AgreeOnStack (mem mem' : Memory) : Prop :=
  ∀ addr, addr % 8 = 0 → mem.validate addr = mem'.validate addr ∧
    (mem.validate addr = true → mem.word addr = mem'.word addr)

theorem readStack_congr {mem mem' : Memory} (h : mem.AgreeOnStack mem') (addr : ℕ) :
    readStack mem addr = readStack mem' addr := by
  obtain ⟨hvalid, hword⟩ := h (alignedAddr addr) (alignedAddr_mod addr)
  have hfst : (readStack mem addr).1 = (readStack mem' addr).1 := by
    rw [readStack_fst, readStack_fst, Memory.wordAt, Memory.wordAt, ← hvalid]
    by_cases haccept : mem.validate (alignedAddr addr) = true
    · rw [if_pos haccept, if_pos haccept, hword haccept]
    · rw [if_neg haccept, if_neg haccept]
  refine Prod.ext hfst ?_
  rw [readStack, readStack, ← hvalid]
  split <;> rfl

/-! ### From frame to frame -/

/-- The unwinder on its way to the next frame: it asks for words of the stack,
and comes to a frame, or to an end (`Ok(None)` or `Err`). -/
inductive Hop (τ : Type*) where
  | read (addr : ℕ) (next : Option ℕ → Hop τ)
  | frame (address : ℕ) (t : τ)
  | finish

namespace Hop

variable {τ : Type*}

/-- `next` of the iterator: what it finds, `none` after a fault, and what is
done to the memory. -/
def run (mem : Memory) : Hop τ → Option (Option (IpFrame × τ)) × List Probe
  | read addr next =>
    match readStack mem addr with
    | (some word, log) => ((run mem (next word)).1, log ++ (run mem (next word)).2)
    | (none, log) => (none, log)
  | frame address t => (some (some (⟨address⟩, t)), [])
  | finish => (some none, [])

/-- What the iterator finds. -/
def eval (mem : Memory) : Hop τ → Option (IpFrame × τ)
  | read addr next => eval mem (next (mem.wordAt addr))
  | frame address t => some (⟨address⟩, t)
  | finish => none

theorem run_read (mem : Memory) (addr : ℕ) (next : Option ℕ → Hop τ) :
    run mem (read addr next) = ((run mem (next (mem.wordAt addr))).1,
      (readStack mem addr).2 ++ (run mem (next (mem.wordAt addr))).2) := by
  have hread : readStack mem addr = (some (mem.wordAt addr), (readStack mem addr).2) :=
    Prod.ext (readStack_fst mem addr) rfl
  rw [run, hread]

/-- A hop does not fault. -/
theorem run_fst (mem : Memory) (hop : Hop τ) : (hop.run mem).1 = some (hop.eval mem) := by
  induction hop with
  | read addr next ih =>
    rw [run_read]
    exact ih _
  | frame address t => rfl
  | finish => rfl

theorem guarded {mem : Memory} {log : List Probe} (h : Guarded mem log) (hop : Hop τ) :
    Guarded mem ((hop.run mem).2 ++ log) := by
  induction hop with
  | read addr next ih =>
    rw [run_read, List.append_assoc]
    exact guarded_readStack (ih _) addr
  | frame address t => exact h
  | finish => exact h

theorem run_congr {mem mem' : Memory} (h : mem.AgreeOnStack mem') (hop : Hop τ) :
    hop.run mem = hop.run mem' := by
  induction hop with
  | read addr next ih =>
    have hword : mem.wordAt addr = mem'.wordAt addr := by
      have hfst := congrArg Prod.fst (readStack_congr h addr)
      rwa [readStack_fst, readStack_fst, Option.some.injEq] at hfst
    rw [run_read, run_read, readStack_congr h, hword, ih]
  | frame address t => rfl
  | finish => rfl

end Hop

/-! ### The loop -/

/-- The unwinder of the crate, by its hops: `Unwinder::iter_frames`, and `next`
of the iterator. -/
class Unwinder where
  State : Type
  iterFrames : ℕ → Ucontext.UnwindRegs → State
  next : State → Hop State

/-- A walk that has ended: what it leaves to the closure, `none` after a fault,
and what it did to the memory. -/
structure Hopped (σ : Type*) where
  state : Option σ
  log : List Probe

section Loop

variable [Unwinder] {σ : Type*}

/-- The loop of `FramehopUnwinder::iter_frames`; it need not end, and `none` is
no answer after so many rounds. -/
def iterFrames (mem : Memory) (cb : σ → IpFrame → σ × Bool) :
    ℕ → Unwinder.State → σ → Option (Hopped σ)
  | 0, _, _ => none
  | fuel + 1, t, s =>
    match (Unwinder.next t).run mem with
    | (none, log) => some ⟨none, log⟩
    | (some none, log) => some ⟨some s, log⟩
    | (some (some (frame, t')), log) =>
      if (cb s frame).2 then
        (iterFrames mem cb fuel t' (cb s frame).1).map fun w => ⟨w.state, log ++ w.log⟩
      else some ⟨some (cb s frame).1, log⟩

/-- `framehop_unwinder::Trace::trace`; `locked` says whether `UNWINDER` can be
taken. -/
def hopTrace (uc : Ucontext) (mem : Memory) (locked : Bool) (cb : σ → IpFrame → σ × Bool)
    (fuel : ℕ) (s : σ) : Option (Hopped σ) :=
  if locked then
    match uc.getRegs with
    | some (regs, pc) => iterFrames mem cb fuel (Unwinder.iterFrames pc regs) s
    | none => some ⟨some s, []⟩
  else some ⟨some s, []⟩

/-- What the next hop finds. -/
def nextFound (mem : Memory) (t : Unwinder.State) : Option (IpFrame × Unwinder.State) :=
  (Unwinder.next t).eval mem

variable {mem : Memory} {cb : σ → IpFrame → σ × Bool}

/-- A round that finds no frame ends the loop. -/
theorem iterFrames_of_none {t : Unwinder.State} (h : nextFound mem t = none) (fuel : ℕ) (s : σ) :
    iterFrames mem cb (fuel + 1) t s = some ⟨some s, ((Unwinder.next t).run mem).2⟩ := by
  have hrun : (Unwinder.next t).run mem = (some none, ((Unwinder.next t).run mem).2) := by
    refine Prod.ext ?_ rfl
    rw [Hop.run_fst]
    exact congrArg some h
  rw [iterFrames, hrun]

/-- A round that finds a frame shows it to the closure, and goes on if that
answers `true`. -/
theorem iterFrames_of_some {t : Unwinder.State} {q : IpFrame × Unwinder.State}
    (h : nextFound mem t = some q) (fuel : ℕ) (s : σ) :
    iterFrames mem cb (fuel + 1) t s =
      if (cb s q.1).2 then
        (iterFrames mem cb fuel q.2 (cb s q.1).1).map fun w =>
          ⟨w.state, ((Unwinder.next t).run mem).2 ++ w.log⟩
      else some ⟨some (cb s q.1).1, ((Unwinder.next t).run mem).2⟩ := by
  have hrun : (Unwinder.next t).run mem
      = (some (some (q.1, q.2)), ((Unwinder.next t).run mem).2) := by
    refine Prod.ext ?_ rfl
    rw [Hop.run_fst]
    exact congrArg some h
  rw [iterFrames, hrun]

/-- Without its accesses the loop is one that shows what it finds; it never
faults. -/
theorem iterFrames_state (mem : Memory) (cb : σ → IpFrame → σ × Bool) (fuel : ℕ)
    (t : Unwinder.State) (s : σ) :
    (iterFrames mem cb fuel t s).map Hopped.state
      = (traceBy (nextFound mem) cb fuel t s).map some := by
  induction fuel generalizing t s with
  | zero => rfl
  | succ fuel ih =>
    rw [traceBy]
    cases hnext : nextFound mem t with
    | none =>
      rw [iterFrames_of_none hnext]
      rfl
    | some q =>
      rw [iterFrames_of_some hnext]
      show _ = Option.map some (if (cb s q.1).2 then _ else _)
      split
      · rw [Option.map_map]
        exact ih _ _
      · rfl

/-- The whole walk is guarded. -/
theorem guarded_iterFrames {fuel : ℕ} {t : Unwinder.State} {s : σ} {w : Hopped σ}
    (h : iterFrames mem cb fuel t s = some w) : Guarded mem w.log := by
  induction fuel generalizing t s w with
  | zero => cases h
  | succ fuel ih =>
    -- what is read to come to the next frame is guarded on its own
    have hlast : Guarded mem ((Unwinder.next t).run mem).2 := by
      have hguarded := Hop.guarded (show Guarded mem [] from trivial) (Unwinder.next t)
      rwa [List.append_nil] at hguarded
    cases hnext : nextFound mem t with
    | none =>
      rw [iterFrames_of_none hnext] at h
      exact Option.some.inj h ▸ hlast
    | some q =>
      rw [iterFrames_of_some hnext] at h
      split at h
      · obtain ⟨w', hw', rfl⟩ := Option.map_eq_some_iff.mp h
        exact Hop.guarded (ih hw') _
      · exact Option.some.inj h ▸ hlast

/-- The walk depends only on the words that can be read. -/
theorem iterFrames_congr {mem' : Memory} (h : mem.AgreeOnStack mem') (fuel : ℕ)
    (t : Unwinder.State) (s : σ) : iterFrames mem cb fuel t s = iterFrames mem' cb fuel t s := by
  induction fuel generalizing t s with
  | zero => rfl
  | succ fuel ih =>
    rw [iterFrames, iterFrames, Hop.run_congr h]
    simp only [ih]

theorem hopTrace_congr {mem' : Memory} (h : mem.AgreeOnStack mem') (uc : Ucontext) (locked : Bool)
    (fuel : ℕ) (s : σ) : hopTrace uc mem locked cb fuel s = hopTrace uc mem' locked cb fuel s := by
  rw [hopTrace, hopTrace]
  simp only [iterFrames_congr h]

end Loop

/-! ### What the handler records -/

section Frames

variable [Unwinder]

/-- The frame that is found after `i` others. -/
def frameAt (mem : Memory) : ℕ → Unwinder.State → Option ℕ
  | 0, t => (nextFound mem t).map fun q => q.1.ip
  | i + 1, t => (nextFound mem t).bind fun q => frameAt mem i q.2

/-- The frames that the hops come to, by their position. -/
instance : Framehop where
  iterFrames pc regs mem i := frameAt mem i (Unwinder.iterFrames pc regs)

/-- Finding frames by hops, and by their position in what the hops find. -/
theorem found_nextFound [Target] (mem : Memory) (regs : Ucontext.UnwindRegs) (pc n i : ℕ)
    (t : Unwinder.State)
    (ht : ∀ j, frameAt mem (i + j) (Unwinder.iterFrames pc regs) = frameAt mem j t) :
    found (nextHop mem regs pc) n i = found (nextFound mem) n t := by
  -- the hops are in `t` where the position is `i`; both go on by one frame
  induction n generalizing i t with
  | zero => rfl
  | succ n ih =>
    have hnext : nextHop mem regs pc i
        = (nextFound mem t).map fun q => (q.1, i + 1) := by
      show (frameAt mem i (Unwinder.iterFrames pc regs)).map _ = _
      rw [← Nat.add_zero i, ht 0, frameAt, Option.map_map]
      rfl
    rw [found, found, hnext]
    cases hfound : nextFound mem t with
    | none => rfl
    | some q =>
      have hrest : ∀ j, frameAt mem (i + 1 + j) (Unwinder.iterFrames pc regs)
          = frameAt mem j q.2 := by
        intro j
        rw [Nat.add_assoc, ht (1 + j), Nat.add_comm 1 j, frameAt, hfound]
        rfl
      show q.1 :: found _ n (i + 1) = q.1 :: found _ n q.2
      rw [ih (i + 1) q.2 hrest]

end Frames

namespace Profiler

variable {B : Type*} [Target] [Unwinder] [Symbolizer]

/-- What a walk is that leaves `stack` to the handler's closure. -/
structure GuardedWalk (p : Profiler IpFrame B) (uc : Ucontext) (mem : Memory) (locked : Bool)
    (w : Hopped (List IpFrame)) (stack : List IpFrame) : Prop where
  state : w.state = some stack
  guarded : Guarded mem w.log
  /-- Nothing is read if the unwinder is in use, or without registers. -/
  idle : locked = false ∨ uc.getRegs = none → w.log = []
  recorded : stack = p.backtrace (Trace.frames uc mem locked Target.maxDepth)
  bounded : stack.length ≤ Target.maxDepth

/-- A walk without a hop. -/
theorem guardedWalk_nil {p : Profiler IpFrame B} {uc : Ucontext} {mem : Memory} {locked : Bool}
    (hframes : Trace.frames uc mem locked Target.maxDepth = []) :
    p.GuardedWalk uc mem locked ⟨some [], []⟩ [] where
  state := rfl
  guarded := trivial
  idle _ := rfl
  recorded := by rw [hframes, backtrace, List.takeWhile_nil, List.take_nil]
  bounded := Nat.zero_le _

/-- A walk from the registers of a context. -/
theorem guardedWalk_iterFrames (hbuild : Target.framePointer = false) (p : Profiler IpFrame B)
    {uc : Ucontext} {regs : Ucontext.UnwindRegs} {pc : ℕ} (hregs : uc.getRegs = some (regs, pc))
    (mem : Memory) {fuel : ℕ} (hfuel : Target.maxDepth < fuel) :
    ∃ w stack, iterFrames mem p.pushFrame fuel (Unwinder.iterFrames pc regs) [] = some w ∧
      p.GuardedWalk uc mem true w stack := by
  have hframes : Trace.frames uc mem true Target.maxDepth
      = found (nextFound mem) Target.maxDepth (Unwinder.iterFrames pc regs) := by
    rw [← found_nextFound mem regs pc Target.maxDepth 0 _ fun j => by rw [Nat.zero_add]]
    simp [Trace.frames, hbuild, hregs]
  have hroom : ([] : List IpFrame).length + Target.maxDepth = Target.maxDepth := Nat.zero_add _
  -- the closure stops the loop after so many frames, so the fuel is enough
  have hstate := iterFrames_state mem p.pushFrame fuel (Unwinder.iterFrames pc regs) []
  rw [p.traceBy_pushFrame (nextFound mem) hroom hfuel, List.nil_append] at hstate
  obtain ⟨w, hw, hstack⟩ := Option.map_eq_some_iff.mp hstate
  have hle : ((found (nextFound mem) Target.maxDepth
      (Unwinder.iterFrames pc regs)).takeWhile p.keeps).length ≤ Target.maxDepth :=
    (List.takeWhile_sublist _).length_le.trans (length_found_le _ _ _)
  refine ⟨w, _, hw, hstack, guarded_iterFrames hw, fun h => ?_, ?_, hle⟩
  · rw [hregs] at h
    obtain h | h := h <;> cases h
  · rw [hframes, backtrace_eq, List.take_of_length_le hle]

/-- The walk of the handler ends. -/
theorem exists_guardedWalk (hbuild : Target.framePointer = false) (p : Profiler IpFrame B)
    (uc : Ucontext) (mem : Memory) (locked : Bool) {fuel : ℕ} (hfuel : Target.maxDepth < fuel) :
    ∃ w stack, hopTrace uc mem locked p.pushFrame fuel [] = some w ∧
      p.GuardedWalk uc mem locked w stack := by
  cases locked with
  | false =>
    exact ⟨_, [], by simp [hopTrace], guardedWalk_nil (by simp [Trace.frames, hbuild])⟩
  | true =>
    cases hregs : uc.getRegs with
    | none =>
      exact ⟨_, [], by simp [hopTrace, hregs],
        guardedWalk_nil (by simp [Trace.frames, hbuild, hregs])⟩
    | some r =>
      obtain ⟨w, stack, hw, hguarded⟩ := p.guardedWalk_iterFrames hbuild hregs mem hfuel
      exact ⟨w, stack, by simpa [hopTrace, hregs] using hw, hguarded⟩

/-- **What the handler reads through `framehop`.**  In a build with that
unwinder, whatever it asks for, and for every context and memory: the walk with
the handler's closure ends without a fault after at most `MAX_DEPTH` frames and
one more; each word that is read is aligned, and its 16 bytes were accepted right
before; nothing at all is read if the unwinder is in use or the context has no
registers; what is left is the stack that the handler records; and in any memory
that agrees on the words that can be read so, the walk is the same, access by
access. -/
theorem hops_guarded (hbuild : Target.framePointer = false) (p : Profiler IpFrame B)
    (uc : Ucontext) (mem : Memory) (locked : Bool) {fuel : ℕ} (hfuel : Target.maxDepth < fuel) :
    ∃ w stack, hopTrace uc mem locked p.pushFrame fuel [] = some w ∧
      p.GuardedWalk uc mem locked w stack ∧
      ∀ mem', mem.AgreeOnStack mem' → hopTrace uc mem' locked p.pushFrame fuel [] = some w := by
  obtain ⟨w, stack, hw, hguarded⟩ := p.exists_guardedWalk hbuild uc mem locked hfuel
  exact ⟨w, stack, hw, hguarded, fun mem' h => (hopTrace_congr h uc locked fuel []).symm.trans hw⟩

end Profiler

end Pprof

/-! ### A given unwinder -/

namespace Pprof.Hopping

scoped instance : Symbolizer := ⟨id, fun _ => []⟩

/-- An unwinder along the frame pointers: it shows the program counter, and then
the return addresses. -/
scoped instance : Unwinder where
  State := Option ℕ × ℕ
  iterFrames pc regs := (some pc, regs.fp)
  next
    | (some pc, fp) => .frame pc (none, fp)
    | (none, fp) => .read (fp + 8) fun ret =>
      match ret with
      | none => .finish
      | some address => .read fp fun saved => .frame address (none, saved.getD 0)

/-- The frame of a function, on a page behind which nothing can be read. -/
def lastPage : Memory where
  readable addr := decide (0x1000 ≤ addr ∧ addr < 0x2000)
  word addr := if addr = 0x1FE8 then 0x4011A0 else if addr = 0x1FE0 then 0x1FF0 else 7

/-- Interrupted at `0x401136` on x86-64 Linux, in that function. -/
def inLastPage : Ucontext := .linuxX86_64 fun reg =>
  if reg = Ucontext.REG_RIP then 0x401136 else if reg = Ucontext.REG_RBP then 0x1FE0 else 0

/-- The last word of the page is not read, though it could be. -/
example : readStack lastPage 0x1FF8 = (some none, [.validate 0x1FF8 false]) ∧
    lastPage.readWord 0x1FF8 = some 7 := by decide

end Pprof.Hopping

namespace Pprof.Profiler

open Hopping

/-- The walk ends where the frame pointer leads to the last word of the page. -/
theorem hops_guarded_lastPage :
    letI : Target := Target.linux
    ∃ (p : Profiler IpFrame (Entry (UnresolvedFrames IpFrame))) (w : _) (stack : _),
      Profiler.new true = .ok p ∧
      hopTrace inLastPage lastPage true p.pushFrame 129 [] = some w ∧
      p.GuardedWalk inLastPage lastPage true w stack := by
  let _ : Target := Target.linux
  obtain ⟨p, hp⟩ : ∃ p : Profiler IpFrame (Entry (UnresolvedFrames IpFrame)),
    Profiler.new true = .ok p := ⟨_, rfl⟩
  obtain ⟨w, stack, hw, hguarded, _⟩ := p.hops_guarded rfl inLastPage lastPage true
    (show Target.maxDepth < 129 by decide)
  exact ⟨p, w, stack, hp, hw, hguarded⟩

end Pprof.Profiler
