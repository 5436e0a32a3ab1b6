/-
Unwinding the interrupted thread.

The handler reads the program counter out of the context it is given, and hands
the context to the unwinder, which reads its own registers out of it and shows
the frames it finds to a closure of the handler until that answers `false`.
There are two such unwinders: the walk along the frame pointers of
`frame_pointer.rs`, and that of the crate `framehop`, which is a parameter here.

* `trace_pushFrame` — with the handler's closure a walk ends after at most
  `MAX_DEPTH` frames and one more, whatever the memory holds, and leaves the
  frames that `Profiler.backtrace` keeps;
* `handlerStack_eq` — so the handler records what `Profiler.recorded` says;
* `starts_at_pc_iff` — when the recorded stack starts at the program counter:
  the walk along the frame pointers starts at the return address of the
  interrupted function, and on AArch64 Linux `framehop` is started at the link
  register.
-/
import Pprof.Profiler

namespace Pprof

/-! ### Memory and registers -/

/-- The memory of the process; a word is read at any alignment. -/
structure Memory where
  readable : ℕ → Bool
  word : ℕ → ℕ

/-- `validate`: the 16 bytes at an address can be read. -/
def Memory.validate (mem : Memory) (addr : ℕ) : Bool :=
  addr != 0 && (List.range 16).all fun i => mem.readable (addr + i)

/-- The thread state of a Mac, as far as it is read. -/
structure ThreadState where
  pc : ℕ
  sp : ℕ
  fp : ℕ
  /-- The link register, on AArch64. -/
  lr : ℕ

/-- `ucontext_t` of the targets with an unwinder that reads it; the pointer to
the thread state may be null. -/
inductive Ucontext where
  | linuxX86_64 (gregs : ℕ → ℕ)
  | macosX86_64 (mcontext : Option ThreadState)
  | linuxAArch64 (regs : ℕ → ℕ) (sp pc : ℕ)
  | macosAArch64 (mcontext : Option ThreadState)
  | linuxRiscv64 (gregs : ℕ → ℕ)
  | linuxLoongarch64 (pc : ℕ) (gregs : ℕ → ℕ)

namespace Ucontext

def REG_RBP : ℕ := 10
def REG_RSP : ℕ := 15
def REG_RIP : ℕ := 16
def REG_PC : ℕ := 0
def REG_S0 : ℕ := 8

/-- `addr` of `perf_signal_handler`: the interrupted program counter. -/
def addr : Ucontext → ℕ
  | linuxX86_64 gregs => gregs REG_RIP
  | macosX86_64 mcontext => mcontext.elim 0 ThreadState.pc
  | linuxAArch64 _ _ pc => pc
  | macosAArch64 mcontext => mcontext.elim 0 ThreadState.pc
  | linuxRiscv64 gregs => gregs REG_PC
  | linuxLoongarch64 pc _ => pc

/-- Where `frame_pointer::Trace::trace` starts. -/
def framePointer : Ucontext → ℕ
  | linuxX86_64 gregs => gregs REG_RBP
  | macosX86_64 mcontext => mcontext.elim 0 ThreadState.fp
  | linuxAArch64 regs _ _ => regs 29
  | macosAArch64 mcontext => mcontext.elim 0 ThreadState.fp
  | linuxRiscv64 gregs => gregs REG_S0
  | linuxLoongarch64 _ gregs => gregs 22

/-- `UnwindRegsNative`: on x86-64 the instruction, stack and base pointer, on
AArch64 the link register, the stack and frame pointer. -/
structure UnwindRegs where
  first : ℕ
  sp : ℕ
  fp : ℕ

/-- `get_regs_from_context`, and the address `framehop` starts at; the module is
not built for the last two targets. -/
def getRegs : Ucontext → Option (UnwindRegs × ℕ)
  | linuxX86_64 gregs => some (⟨gregs REG_RIP, gregs REG_RSP, gregs REG_RBP⟩, gregs REG_RIP)
  | macosX86_64 mcontext => mcontext.map fun s => (⟨s.pc, s.sp, s.fp⟩, s.pc)
  | linuxAArch64 regs sp _ => some (⟨regs 30, sp, regs 29⟩, regs 30)
  | macosAArch64 mcontext => mcontext.map fun s => (⟨s.lr, s.sp, s.fp⟩, s.pc)
  | linuxRiscv64 _ => none
  | linuxLoongarch64 _ _ => none

/-- The program counter is the link register, where `framehop` takes the one for
the other. -/
def AtLink : Ucontext → Prop
  | linuxAArch64 regs _ pc => regs 30 = pc
  | _ => True

theorem getRegs_addr {uc : Ucontext} {regs : UnwindRegs} {pc : ℕ}
    (h : uc.getRegs = some (regs, pc)) : pc = uc.addr ↔ uc.AtLink := by
  cases uc with
  | linuxX86_64 gregs =>
    obtain ⟨_, rfl⟩ := Prod.mk.inj (Option.some.inj h)
    exact ⟨fun _ => trivial, fun _ => rfl⟩
  | linuxAArch64 regs sp pc =>
    obtain ⟨_, rfl⟩ := Prod.mk.inj (Option.some.inj h)
    exact Iff.rfl
  | macosX86_64 mcontext =>
    obtain ⟨s, rfl, hs⟩ := Option.map_eq_some_iff.mp h
    exact ⟨fun _ => trivial, fun _ => (Prod.mk.inj hs).2.symm⟩
  | macosAArch64 mcontext =>
    obtain ⟨s, rfl, hs⟩ := Option.map_eq_some_iff.mp h
    exact ⟨fun _ => trivial, fun _ => (Prod.mk.inj hs).2.symm⟩
  | linuxRiscv64 gregs => cases h
  | linuxLoongarch64 pc gregs => cases h

theorem atLink_of_getRegs_none {uc : Ucontext} (h : uc.getRegs = none) : uc.AtLink := by
  cases uc with
  | linuxAArch64 regs sp pc => cases h
  | _ => trivial

end Ucontext

/-! ### Showing frames to a closure -/

/-- `Frame` of both unwinders. -/
structure IpFrame where
  ip : ℕ
  deriving DecidableEq

/-- The symbols of the process; the handler does not ask for them. -/
class Symbolizer where
  findEnclosingFunction : ℕ → ℕ
  resolve : ℕ → List Symbol

instance [Symbolizer] : Frame IpFrame where
  ip frame := frame.ip
  symbolAddress frame := Symbolizer.findEnclosingFunction frame.ip
  resolveSymbol frame := Symbolizer.resolve frame.ip

section Walk

variable {τ σ : Type*}

/-- The loop of an unwinder that finds frames by `next`: it shows each frame to
the closure, until that answers `false`.  The loop need not end; `none` is no
answer after so many rounds. -/
def traceBy (next : τ → Option (IpFrame × τ)) (cb : σ → IpFrame → σ × Bool) :
    ℕ → τ → σ → Option σ
  | 0, _, _ => none
  | fuel + 1, t, s =>
    match next t with
    | none => some s
    | some (frame, t') =>
      if (cb s frame).2 then traceBy next cb fuel t' (cb s frame).1 else some (cb s frame).1

/-- The first `n` frames that are found. -/
def found (next : τ → Option (IpFrame × τ)) : ℕ → τ → List IpFrame
  | 0, _ => []
  | n + 1, t =>
    match next t with
    | none => []
    | some (frame, t') => frame :: found next n t'

theorem length_found_le (next : τ → Option (IpFrame × τ)) (n : ℕ) (t : τ) :
    (found next n t).length ≤ n := by
  induction n generalizing t with
  | zero => exact Nat.zero_le _
  | succ n ih =>
    rw [found]
    cases next t with
    | none => exact Nat.zero_le _
    | some p =>
      have hle := ih p.2
      show (found next n p.2).length + 1 ≤ n + 1
      omega

end Walk

/-- One round of `frame_pointer::Trace::trace`, from the last frame pointer and
the one after it. -/
def nextFrame (mem : Memory) (fps : ℕ × ℕ) : Option (IpFrame × (ℕ × ℕ)) :=
  -- the frame pointer should never be smaller than the former one
  if fps.1 ≠ 0 ∧ fps.2 < fps.1 then none
  else if mem.validate fps.2 then
    -- the return address lies above the frame pointer that was saved
    some (⟨mem.word (fps.2 + 8)⟩, (fps.2, mem.word fps.2))
  else none

/-- The first round of the walk along the frame pointers. -/
theorem nextFrame_first (mem : Memory) (fp : ℕ) :
    nextFrame mem (0, fp)
      = if mem.validate fp then some (⟨mem.word (fp + 8)⟩, (fp, mem.word fp)) else none := by
  rw [nextFrame, if_neg fun h => h.1 rfl]

/-- `Unwinder::iter_frames` of `framehop`: the frames it yields, one after the
other, from a program counter and the registers. -/
class Framehop where
  iterFrames : ℕ → Ucontext.UnwindRegs → Memory → ℕ → Option ℕ

variable [Target] [Framehop]

/-- The iterator of `FramehopUnwinder::iter_frames`. -/
def nextHop (mem : Memory) (regs : Ucontext.UnwindRegs) (pc i : ℕ) : Option (IpFrame × ℕ) :=
  (Framehop.iterFrames pc regs mem i).map fun address => (⟨address⟩, i + 1)

/-- `Trace::trace` of the unwinder that is built in; `locked` says whether the
lock of `framehop` can be taken. -/
def Trace.trace {σ : Type*} (uc : Ucontext) (mem : Memory) (locked : Bool)
    (cb : σ → IpFrame → σ × Bool) (fuel : ℕ) (s : σ) : Option σ :=
  if Target.framePointer then traceBy (nextFrame mem) cb fuel (0, uc.framePointer) s
  else if locked then
    match uc.getRegs with
    | some (regs, pc) => traceBy (nextHop mem regs pc) cb fuel 0 s
    | none => some s
  else some s

/-- The first `n` frames that the unwinder finds. -/
def Trace.frames (uc : Ucontext) (mem : Memory) (locked : Bool) (n : ℕ) : List IpFrame :=
  if Target.framePointer then found (nextFrame mem) n (0, uc.framePointer)
  else if locked then
    match uc.getRegs with
    | some (regs, pc) => found (nextHop mem regs pc) n 0
    | none => []
  else []

namespace Profiler

variable {B : Type*} [Symbolizer]

/-- The closure of `perf_signal_handler`. -/
def pushFrame (p : Profiler IpFrame B) (bt : List IpFrame) (frame : IpFrame) :
    List IpFrame × Bool :=
  if Target.framePointer && p.isBlocklisted (Frame.ip frame) then (bt, false)
  else if bt.length < Target.maxDepth then (bt ++ [frame], true)
  else (bt, false)

/-- The stack that `perf_signal_handler` samples from a context, `some none` if
it returns before. -/
def handlerStack (p : Profiler IpFrame B) (uc : Ucontext) (mem : Memory) (locked : Bool)
    (fuel : ℕ) : Option (Option (List IpFrame)) :=
  if p.isBlocklisted uc.addr then some none
  else (Trace.trace uc mem locked p.pushFrame fuel []).map some

omit [Framehop] in
/-- The handler does not stop at the frame. -/
def keeps (p : Profiler IpFrame B) (frame : IpFrame) : Bool :=
  !(Target.framePointer && p.isBlocklisted (Frame.ip frame))

omit [Framehop] in
theorem backtrace_eq (p : Profiler IpFrame B) (frames : List IpFrame) :
    p.backtrace frames = (frames.takeWhile p.keeps).take Target.maxDepth := rfl

omit [Framehop] in
/-- A walk with the closure keeps frames up to a blocked one, as long as there is
room for them. -/
theorem traceBy_pushFrame {τ : Type*} (p : Profiler IpFrame B)
    (next : τ → Option (IpFrame × τ)) : ∀ {room fuel : ℕ} {t : τ} {bt : List IpFrame},
      bt.length + room = Target.maxDepth → room < fuel →
      traceBy next p.pushFrame fuel t bt
        = some (bt ++ (found next room t).takeWhile p.keeps) := by
  intro room
  induction room with
  | zero =>
    intro fuel t bt hroom hfuel
    obtain ⟨fuel, rfl⟩ : ∃ n, fuel = n + 1 := ⟨fuel - 1, by omega⟩
    rw [traceBy, found, List.takeWhile_nil, List.append_nil]
    cases next t with
    | none => rfl
    | some q =>
      -- no frame is pushed any more
      have hpush : p.pushFrame bt q.1 = (bt, false) := by
        rw [pushFrame]
        split
        · rfl
        · rw [if_neg (by omega)]
      show (if (p.pushFrame bt q.1).2 then _ else _) = _
      rw [hpush]
      rfl
  | succ room ih =>
    intro fuel t bt hroom hfuel
    obtain ⟨fuel, rfl⟩ : ∃ n, fuel = n + 1 := ⟨fuel - 1, by omega⟩
    rw [traceBy, found]
    cases next t with
    | none => simp
    | some q =>
      show (if (p.pushFrame bt q.1).2 then _ else _)
        = some (bt ++ (q.1 :: found next room q.2).takeWhile _)
      by_cases hblocked : (Target.framePointer && p.isBlocklisted (Frame.ip q.1)) = true
      · have hpush : p.pushFrame bt q.1 = (bt, false) := by rw [pushFrame, if_pos hblocked]
        have hkeeps : ¬ p.keeps q.1 = true := by rw [keeps, hblocked]; exact Bool.false_ne_true
        rw [hpush, List.takeWhile_cons_of_neg hkeeps, List.append_nil]
        rfl
      · have hpush : p.pushFrame bt q.1 = (bt ++ [q.1], true) := by
          rw [pushFrame, if_neg hblocked, if_pos (by omega)]
        have hkeeps : p.keeps q.1 = true := by rw [keeps, Bool.eq_false_iff.mpr hblocked]; rfl
        have hlength : (bt ++ [q.1]).length + room = Target.maxDepth := by
          rw [List.length_append, List.length_singleton]
          omega
        rw [hpush, List.takeWhile_cons_of_pos hkeeps, if_pos rfl, ih hlength (by omega),
          List.append_assoc, List.singleton_append]

/-- The handler's walk ends, and leaves the frames that `backtrace` keeps. -/
theorem trace_pushFrame (p : Profiler IpFrame B) (uc : Ucontext) (mem : Memory) (locked : Bool)
    {fuel : ℕ} (hfuel : Target.maxDepth < fuel) :
    Trace.trace uc mem locked p.pushFrame fuel []
      = some (p.backtrace (Trace.frames uc mem locked Target.maxDepth)) := by
  -- either walk hands its frames to the same callback, one at a time
  have hwalk : ∀ {τ : Type} (next : τ → Option (IpFrame × τ)) (t : τ),
      traceBy next p.pushFrame fuel t []
        = some (p.backtrace (found next Target.maxDepth t)) := by
    intro τ next t
    have hroom : ([] : List IpFrame).length + Target.maxDepth = Target.maxDepth := by
      rw [List.length_nil, Nat.zero_add]
    have hle : ((found next Target.maxDepth t).takeWhile p.keeps).length ≤ Target.maxDepth :=
      (List.takeWhile_sublist _).length_le.trans (length_found_le next Target.maxDepth t)
    rw [traceBy_pushFrame p next hroom hfuel, backtrace_eq, List.take_of_length_le hle,
      List.nil_append]
  have hnone : p.backtrace [] = [] := by rw [backtrace, List.takeWhile_nil, List.take_nil]
  unfold Trace.trace Trace.frames
  split
  · exact hwalk _ _
  · split
    · cases uc.getRegs with
      | none => exact congrArg some hnone.symm
      | some r => exact hwalk _ _
    · exact congrArg some hnone.symm

/-- The handler records this stack, with the thread and the time. -/
theorem handlerStack_eq (p : Profiler IpFrame B) (uc : Ucontext) (mem : Memory) (locked : Bool)
    {fuel : ℕ} (hfuel : Target.maxDepth < fuel) (threadName : ThreadName) (threadId : UInt64)
    (now : SystemTime) :
    p.handlerStack uc mem locked fuel
      = some ((p.recorded ⟨some uc.addr, Trace.frames uc mem locked Target.maxDepth, threadName,
          threadId, now⟩).map UnresolvedFrames.frames) := by
  rw [handlerStack, recorded, Option.any_some]
  by_cases hpc : p.isBlocklisted uc.addr = true
  · rw [if_pos hpc, if_pos hpc, Option.map_none]
  · rw [if_neg hpc, if_neg hpc, p.trace_pushFrame uc mem locked hfuel]
    rfl

/-- The stack that is recorded, if there is one, starts at the interrupted
program counter. -/
def StartsAtPc (uc : Ucontext) (stack : Option (List IpFrame)) : Prop :=
  ∀ frame rest, stack = some (frame :: rest) → frame.ip = uc.addr

/-- No frame is recorded, or the first one that is found is at the program
counter. -/
def FoundAtPc (p : Profiler IpFrame B) (uc : Ucontext) (mem : Memory) (locked : Bool) : Prop :=
  p.isBlocklisted uc.addr = true ∨ Target.maxDepth = 0 ∨
    if Target.framePointer then
      mem.validate uc.framePointer = false ∨
        p.isBlocklisted (mem.word (uc.framePointer + 8)) = true ∨
        mem.word (uc.framePointer + 8) = uc.addr
    else locked = false ∨ uc.AtLink

omit [Framehop] in
/-- What is kept of a walk starts with the first frame that is found. -/
theorem backtrace_found_iff {τ : Type*} (p : Profiler IpFrame B)
    (next : τ → Option (IpFrame × τ)) (t : τ) (pc : ℕ) :
    (∀ frame rest, p.backtrace (found next Target.maxDepth t) = frame :: rest → frame.ip = pc) ↔
      Target.maxDepth = 0 ∨ ∀ q, next t = some q → p.keeps q.1 = true → q.1.ip = pc := by
  cases hdepth : Target.maxDepth with
  | zero =>
    refine ⟨fun _ => .inl rfl, fun _ frame rest h => ?_⟩
    rw [found, backtrace_eq, List.takeWhile_nil, List.take_nil] at h
    cases h
  | succ depth =>
    -- the first frame found is the first frame recorded, when the profiler keeps it
    have hstart : ∀ q, next t = some q → p.keeps q.1 = true →
        ∃ rest, p.backtrace (found next (depth + 1) t) = q.1 :: rest := by
      intro q hq hkeeps
      refine ⟨((found next depth q.2).takeWhile p.keeps).take depth, ?_⟩
      rw [backtrace_eq, found, hq, hdepth]
      show ((q.1 :: found next depth q.2).takeWhile p.keeps).take (depth + 1) = _
      rw [List.takeWhile_cons_of_pos hkeeps, List.take_succ_cons]
    -- and nothing is recorded when it does not, or when there is none
    have hnil : (∀ q, next t = some q → p.keeps q.1 = false) →
        p.backtrace (found next (depth + 1) t) = [] := by
      intro hq
      rw [backtrace_eq, found]
      cases hnext : next t with
      | none => rw [List.takeWhile_nil, List.take_nil]
      | some q =>
        show ((q.1 :: found next depth q.2).takeWhile p.keeps).take Target.maxDepth = []
        rw [List.takeWhile_cons_of_neg (Bool.eq_false_iff.mp (hq q hnext)), List.take_nil]
    constructor
    · intro h
      refine .inr fun q hq hkeeps => ?_
      obtain ⟨rest, hrest⟩ := hstart q hq hkeeps
      exact h q.1 rest hrest
    · intro h frame rest hframe
      have h := h.resolve_left (Nat.succ_ne_zero depth)
      by_cases hkeeps : ∃ q, next t = some q ∧ p.keeps q.1 = true
      · obtain ⟨q, hq, hkeeps⟩ := hkeeps
        obtain ⟨rest', hrest⟩ := hstart q hq hkeeps
        rw [hrest] at hframe
        rw [← (List.cons.inj hframe).1]
        exact h q hq hkeeps
      · rw [hnil fun q hq => Bool.eq_false_iff.mpr fun hk => hkeeps ⟨q, hq, hk⟩] at hframe
        cases hframe

/-- The walk along the frame pointers starts at the return address. -/
theorem framePointer_starts_iff (hbuild : Target.framePointer = true) (p : Profiler IpFrame B)
    (uc : Ucontext) (mem : Memory) (locked : Bool) :
    (∀ frame rest, p.backtrace (Trace.frames uc mem locked Target.maxDepth) = frame :: rest →
        frame.ip = uc.addr) ↔
      Target.maxDepth = 0 ∨ mem.validate uc.framePointer = false ∨
        p.isBlocklisted (mem.word (uc.framePointer + 8)) = true ∨
        mem.word (uc.framePointer + 8) = uc.addr := by
  rw [Trace.frames, if_pos hbuild, backtrace_found_iff, nextFrame_first]
  refine or_congr_right ?_
  by_cases hvalid : mem.validate uc.framePointer = true
  · rw [if_pos hvalid, or_iff_right (by simp [hvalid])]
    -- the first frame the walk gives is the return address behind the frame pointer
    have hkeeps : p.keeps ⟨mem.word (uc.framePointer + 8)⟩ = true ↔
        ¬ p.isBlocklisted (mem.word (uc.framePointer + 8)) = true := by
      rw [keeps, hbuild, Bool.true_and, Bool.not_eq_true', Bool.not_eq_true]
      rfl
    constructor
    · intro h
      by_cases hblocked : p.isBlocklisted (mem.word (uc.framePointer + 8)) = true
      · exact .inl hblocked
      · exact .inr (h _ rfl (hkeeps.mpr hblocked))
    · intro h q hq hq'
      obtain rfl := Option.some.inj hq
      exact h.resolve_left (hkeeps.mp hq')
  · rw [if_neg hvalid]
    exact ⟨fun _ => .inl (Bool.eq_false_iff.mpr hvalid), fun _ q hq => nomatch hq⟩

/-- `framehop` starts at the address that is read out of the context for it. -/
theorem framehop_starts_iff
    (hfirst : ∀ pc regs mem, Framehop.iterFrames pc regs mem 0 = some pc)
    (hbuild : ¬ Target.framePointer = true) (p : Profiler IpFrame B) (uc : Ucontext)
    (mem : Memory) (locked : Bool) :
    (∀ frame rest, p.backtrace (Trace.frames uc mem locked Target.maxDepth) = frame :: rest →
        frame.ip = uc.addr) ↔
      Target.maxDepth = 0 ∨ locked = false ∨ uc.AtLink := by
  have hnil : ∀ frame rest, p.backtrace [] ≠ frame :: rest := by
    intro frame rest h
    rw [backtrace_eq, List.takeWhile_nil, List.take_nil] at h
    cases h
  have hkeeps : ∀ frame, p.keeps frame = true := by
    intro frame
    rw [keeps, Bool.eq_false_iff.mpr hbuild, Bool.false_and, Bool.not_false]
  rw [Trace.frames, if_neg hbuild]
  cases locked with
  | false => exact ⟨fun _ => .inr (.inl rfl), fun _ frame rest h => absurd h (hnil frame rest)⟩
  | true =>
    -- the lock is free, so the frames are those of the registers
    have hlink : (true = false ∨ uc.AtLink) ↔ uc.AtLink := or_iff_right (by decide)
    rw [if_pos rfl, hlink]
    cases hregs : uc.getRegs with
    | none =>
      exact ⟨fun _ => .inr (uc.atLink_of_getRegs_none hregs),
        fun _ frame rest h => absurd h (hnil frame rest)⟩
    | some r =>
      obtain ⟨regs, pc⟩ := r
      -- the unwinder shows the program counter first
      have hnext : nextHop mem regs pc 0 = some (⟨pc⟩, 1) := by
        rw [nextHop, hfirst]
        rfl
      show (∀ frame rest, p.backtrace (found (nextHop mem regs pc) Target.maxDepth 0)
        = frame :: rest → frame.ip = uc.addr) ↔ _
      rw [backtrace_found_iff, hnext, ← Ucontext.getRegs_addr hregs]
      refine or_congr_right ?_
      constructor
      · intro h
        exact h _ rfl (hkeeps _)
      · intro h q hq _
        obtain rfl := Option.some.inj hq
        exact h

/-- **Where recorded stacks start.**  The walk of the handler ends, and the
stack that it records starts at the interrupted program counter if and only if
nothing is recorded or the first frame that is found is there: the return
address at the frame pointer, or on AArch64 Linux the link register. -/
theorem starts_at_pc_iff
    (hfirst : ∀ pc regs mem, Framehop.iterFrames pc regs mem 0 = some pc)
    (p : Profiler IpFrame B) (uc : Ucontext) (mem : Memory) (locked : Bool) {fuel : ℕ}
    (hfuel : Target.maxDepth < fuel) :
    ∃ stack, p.handlerStack uc mem locked fuel = some stack ∧
      (StartsAtPc uc stack ↔ p.FoundAtPc uc mem locked) := by
  by_cases hpc : p.isBlocklisted uc.addr = true
  · refine ⟨none, if_pos hpc, fun _ => .inl hpc, fun _ frame rest h => ?_⟩
    cases h
  refine ⟨some (p.backtrace (Trace.frames uc mem locked Target.maxDepth)), ?_, ?_⟩
  · rw [handlerStack, if_neg hpc, p.trace_pushFrame uc mem locked hfuel]
    rfl
  -- the handler records what the unwinder found; each of the two has its own condition
  have hsome : StartsAtPc uc (some (p.backtrace (Trace.frames uc mem locked Target.maxDepth))) ↔
      ∀ frame rest, p.backtrace (Trace.frames uc mem locked Target.maxDepth) = frame :: rest →
        frame.ip = uc.addr := by
    simp only [StartsAtPc, Option.some_inj]
  rw [hsome, FoundAtPc, or_iff_right hpc]
  by_cases hbuild : Target.framePointer = true
  · rw [if_pos hbuild]
    exact p.framePointer_starts_iff hbuild uc mem locked
  · rw [if_neg hbuild]
    exact p.framehop_starts_iff hfirst hbuild uc mem locked

end Profiler

end Pprof

/-! ### Given contexts -/

namespace Pprof.Unwinding

scoped instance : Symbolizer := ⟨id, fun _ => []⟩

/-- An unwinder that stops after the first frame, as it does on x86-64 where the
stack cannot be read. -/
scoped instance : Framehop := ⟨fun pc _ _ i => if i = 0 then some pc else none⟩

/-- A 64-bit Linux build with the feature `frame-pointer`. -/
@[reducible] def framePointerBuild : Target := { Target.linux with framePointer := true }

/-- Nothing can be read. -/
def unreadable : Memory := ⟨fun _ => false, fun _ => 0⟩

/-- The frame of a function that returns to `0x4011A0`. -/
def oneFrame : Memory :=
  ⟨fun _ => true, fun a => if a = 0x7FFE00001008 then 0x4011A0 else 0⟩

/-- Interrupted at `0x401136` on x86-64 Linux. -/
def x86 : Ucontext := .linuxX86_64 fun reg =>
  if reg = Ucontext.REG_RIP then 0x401136
  else if reg = Ucontext.REG_RBP then 0x7FFE00001000 else 0

/-- Interrupted at `0x401136` on AArch64 Linux, in a function that was called
from `0x4011A0`. -/
def arm : Ucontext := .linuxAArch64 (fun reg => if reg = 30 then 0x4011A0 else 0) 0 0x401136

/-- The entries of the collector; the handler's walk does not look at them. -/
abbrev Item := Entry (UnresolvedFrames IpFrame)

end Pprof.Unwinding

namespace Pprof.Profiler

open Unwinding

/-- `framehop` on x86-64 Linux starts at the program counter. -/
theorem starts_at_pc_x86 :
    letI : Target := Target.linux
    ∃ (p : Profiler IpFrame Item) (stack : _), Profiler.new true = .ok p ∧
      p.handlerStack x86 unreadable true 129 = some stack ∧ StartsAtPc x86 stack := by
  let _ : Target := Target.linux
  obtain ⟨p, hp⟩ : ∃ p : Profiler IpFrame Item, Profiler.new true = .ok p := ⟨_, rfl⟩
  obtain ⟨stack, hstack, hiff⟩ := starts_at_pc_iff (fun _ _ _ => rfl) p x86 unreadable true
    (show Target.maxDepth < 129 by decide)
  exact ⟨p, stack, hp, hstack, hiff.mpr (.inr (.inr (.inr trivial)))⟩

/-- With frame pointers, and with `framehop` on AArch64 Linux, the stack starts
at the caller. -/
theorem not_starts_at_pc :
    (letI : Target := framePointerBuild
      ∃ p : Profiler IpFrame Item, Profiler.new true = .ok p ∧
        p.handlerStack x86 oneFrame true 129 = some (some [⟨0x4011A0⟩]) ∧
        ¬ StartsAtPc x86 (some [⟨0x4011A0⟩])) ∧
    (letI : Target := Target.linux
      ∃ p : Profiler IpFrame Item, Profiler.new true = .ok p ∧
        p.handlerStack arm oneFrame true 129 = some (some [⟨0x4011A0⟩]) ∧
        ¬ StartsAtPc arm (some [⟨0x4011A0⟩])) := by
  refine ⟨⟨_, rfl, by decide +kernel, fun h => ?_⟩, ⟨_, rfl, by decide +kernel, fun h => ?_⟩⟩
  · exact absurd (h _ _ rfl) (by decide)
  · exact absurd (h _ _ rfl) (by decide)

end Pprof.Profiler
