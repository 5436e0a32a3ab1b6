/-
The walk along the frame pointers.

`walk` is the loop of `frame_pointer.rs` with the accesses to memory that it
makes: each address it asks `validate` about, and each frame it reads, for the
return address or for the frame pointer of the caller.  A read of bytes that
cannot be read is a fault.  The loop need not end; `none` is no answer after so
many rounds.

* `walk_of_none`, `walk_of_some` — what one round does;
* `walk_state` — without the accesses it is the walk of `Trace.trace`;
* `Checked`, `checked_of_walk` — only frames that were accepted are read;
* `Memory.Frames`, `frames_of_found` — the frames that are found are the longest
  chain of readable frames that do not descend;
* `trace_bounded` — with the closure of the handler the walk is bounded and
  safe;
* `never_twice_iff` — with any closure it ends, and shows no frame twice,
  exactly when it reaches no frame that points to itself.
-/
import Pprof.Backtrace

namespace Pprof

/-! ### The loop -/

/-- `FramePointerLayout`. -/
structure FramePointerLayout where
  framePointer : ℕ
  ret : ℕ

/-- `read_ptr` of a `FramePointerLayout`, which has 16 bytes; `none` is a
fault. -/
def Memory.readPtr (mem : Memory) (addr : ℕ) : Option FramePointerLayout :=
  if (List.range 16).all fun i => mem.readable (addr + i) then
    some ⟨mem.word addr, mem.word (addr + 8)⟩
  else none

theorem Memory.readPtr_of_validate {mem : Memory} {addr : ℕ} (h : mem.validate addr = true) :
    mem.readPtr addr = some ⟨mem.word addr, mem.word (addr + 8)⟩ := by
  rw [validate, Bool.and_eq_true] at h
  rw [readPtr, if_pos h.2]

/-- What the walk does with an address. -/
inductive Access where
  | validate (addr : ℕ) (accepted : Bool)
  /-- `read_ptr(frame_pointer).ret`. -/
  | ret (addr : ℕ)
  /-- `read_ptr(frame_pointer).frame_pointer`. -/
  | framePointer (addr : ℕ)
  deriving DecidableEq

/-- The frame whose return address is read. -/
def Access.visited : Access → Option ℕ
  | ret addr => some addr
  | _ => none

/-- A walk that has ended: what it leaves to the closure, `none` after a fault,
and its accesses. -/
structure Walked (σ : Type*) where
  state : Option σ
  log : List Access

/-- The frame pointers at which a return address was read. -/
def Walked.visited {σ : Type*} (w : Walked σ) : List ℕ := w.log.filterMap Access.visited

variable {σ : Type*}

/-- The loop of `frame_pointer::Trace::trace`, from `last_frame_pointer` and
`frame_pointer`. -/
def walk (mem : Memory) (cb : σ → IpFrame → σ × Bool) : ℕ → ℕ → ℕ → σ → Option (Walked σ)
  | 0, _, _, _ => none
  | fuel + 1, last, fp, s =>
    -- the frame pointer should never be smaller than the former one
    if last ≠ 0 ∧ fp < last then some ⟨some s, []⟩
    else if mem.validate fp = false then some ⟨some s, [.validate fp false]⟩
    else
      match mem.readPtr fp with
      | none => some ⟨none, [.validate fp true, .ret fp]⟩
      | some layout =>
        if (cb s ⟨layout.ret⟩).2 then
          -- iterate to the next frame
          match mem.readPtr fp with
          | none => some ⟨none, [.validate fp true, .ret fp, .framePointer fp]⟩
          | some layout' =>
            (walk mem cb fuel fp layout'.framePointer (cb s ⟨layout.ret⟩).1).map fun w =>
              ⟨w.state, .validate fp true :: .ret fp :: .framePointer fp :: w.log⟩
        else some ⟨some (cb s ⟨layout.ret⟩).1, [.validate fp true, .ret fp]⟩

variable {mem : Memory} {cb : σ → IpFrame → σ × Bool}

/-- A round that finds no frame ends the walk, before any read. -/
theorem walk_of_none (cb : σ → IpFrame → σ × Bool) {last fp : ℕ}
    (h : nextFrame mem (last, fp) = none) (fuel : ℕ) (s : σ) :
    walk mem cb (fuel + 1) last fp s = some ⟨some s, []⟩ ∨
      mem.validate fp = false ∧
        walk mem cb (fuel + 1) last fp s = some ⟨some s, [.validate fp false]⟩ := by
  rw [nextFrame] at h
  rw [walk]
  split at h
  · next hdown => exact .inl (if_pos hdown)
  · next hdown =>
    rw [if_neg hdown]
    split at h
    · cases h
    · next hvalid =>
      have hvalid := Bool.eq_false_iff.mpr hvalid
      exact .inr ⟨hvalid, if_pos hvalid⟩

theorem visited_of_none (cb : σ → IpFrame → σ × Bool) {last fp : ℕ}
    (h : nextFrame mem (last, fp) = none) (fuel : ℕ) (s : σ) :
    ∃ w, walk mem cb (fuel + 1) last fp s = some w ∧ w.state = some s ∧ w.visited = [] := by
  obtain hwalk | ⟨_, hwalk⟩ := walk_of_none cb h fuel s
  · exact ⟨_, hwalk, rfl, rfl⟩
  · exact ⟨_, hwalk, rfl, rfl⟩

/-- What is known of a frame that is found. -/
theorem nextFrame_eq_some {last fp : ℕ} {q : IpFrame × (ℕ × ℕ)}
    (h : nextFrame mem (last, fp) = some q) :
    ¬ (last ≠ 0 ∧ fp < last) ∧ mem.validate fp = true ∧
      q = (⟨mem.word (fp + 8)⟩, (fp, mem.word fp)) := by
  rw [nextFrame] at h
  split at h
  · cases h
  · next hdown =>
    split at h
    · next hvalid => exact ⟨hdown, hvalid, (Option.some.inj h).symm⟩
    · cases h

/-- A round that finds a frame shows it to the closure, and goes on from the
frame pointer that was saved if that answers `true`. -/
theorem walk_of_some {last fp : ℕ} (hdown : ¬ (last ≠ 0 ∧ fp < last))
    (hvalid : mem.validate fp = true) (fuel : ℕ) (s : σ) :
    walk mem cb (fuel + 1) last fp s =
      if (cb s ⟨mem.word (fp + 8)⟩).2 then
        (walk mem cb fuel fp (mem.word fp) (cb s ⟨mem.word (fp + 8)⟩).1).map fun w =>
          ⟨w.state, .validate fp true :: .ret fp :: .framePointer fp :: w.log⟩
      else some ⟨some (cb s ⟨mem.word (fp + 8)⟩).1, [.validate fp true, .ret fp]⟩ := by
  have hread := Memory.readPtr_of_validate hvalid
  rw [walk, if_neg hdown, if_neg (by simp [hvalid])]
  simp only [hread]

/-- Without its accesses the walk is that of `Trace.trace`; it never faults. -/
theorem walk_state (mem : Memory) (cb : σ → IpFrame → σ × Bool) (fuel last fp : ℕ) (s : σ) :
    (walk mem cb fuel last fp s).map Walked.state
      = (traceBy (nextFrame mem) cb fuel (last, fp) s).map some := by
  induction fuel generalizing last fp s with
  | zero => rfl
  | succ fuel ih =>
    rw [traceBy]
    cases hnext : nextFrame mem (last, fp) with
    | none =>
      obtain ⟨w, hw, hstate, _⟩ := visited_of_none cb hnext fuel s
      rw [hw, Option.map_some, hstate]
      rfl
    | some q =>
      obtain ⟨hdown, hvalid, rfl⟩ := nextFrame_eq_some hnext
      rw [walk_of_some hdown hvalid]
      show _ = Option.map some (if (cb s ⟨mem.word (fp + 8)⟩).2 then _ else _)
      split
      · rw [Option.map_map]
        exact ih _ _ _
      · rfl

/-! ### What is read -/

/-- `validate` answers what the memory allows, and a frame is only read when it
was accepted before; `accepted` are the addresses that were accepted so far. -/
def Checked (mem : Memory) : List ℕ → List Access → Prop
  | _, [] => True
  | accepted, .validate a ok :: log =>
    mem.validate a = ok ∧ Checked mem (if ok then a :: accepted else accepted) log
  | accepted, .ret a :: log => a ∈ accepted ∧ Checked mem accepted log
  | accepted, .framePointer a :: log => a ∈ accepted ∧ Checked mem accepted log

theorem checked_of_walk {fuel last fp : ℕ} {s : σ} {w : Walked σ}
    (h : walk mem cb fuel last fp s = some w) (accepted : List ℕ) :
    Checked mem accepted w.log := by
  induction fuel generalizing last fp s w accepted with
  | zero => cases h
  | succ fuel ih =>
    cases hnext : nextFrame mem (last, fp) with
    | none =>
      -- the walk ends before it asks validate, or right after it was refused
      obtain hwalk | ⟨hvalid, hwalk⟩ := walk_of_none cb hnext fuel s
      · obtain rfl := Option.some.inj (hwalk.symm.trans h)
        trivial
      · obtain rfl := Option.some.inj (hwalk.symm.trans h)
        exact ⟨hvalid, trivial⟩
    | some q =>
      obtain ⟨hdown, hvalid, rfl⟩ := nextFrame_eq_some hnext
      rw [walk_of_some hdown hvalid] at h
      split at h
      · obtain ⟨w', hw', rfl⟩ := Option.map_eq_some_iff.mp h
        exact ⟨hvalid, List.mem_cons_self, List.mem_cons_self, ih hw' _⟩
      · obtain rfl := Option.some.inj h
        exact ⟨hvalid, List.mem_cons_self, trivial⟩

/-- A chain of frames from a frame pointer: each can be read, holds the frame
pointer of the next, and does not lie above it. -/
structure Memory.Frames (mem : Memory) (fp : ℕ) (l : List ℕ) : Prop where
  head : ∀ a ∈ l.head?, a = fp
  linked : l.IsChain fun a b => b = mem.word a ∧ a ≤ b
  valid : ∀ a ∈ l, mem.validate a = true

theorem Memory.Frames.nil (fp : ℕ) : mem.Frames fp [] where
  head a ha := by cases ha
  linked := List.isChain_nil
  valid a ha := by cases ha

theorem Memory.Frames.cons {fp : ℕ} {l : List ℕ} (hvalid : mem.validate fp = true)
    (h : mem.Frames (mem.word fp) l) (hle : l ≠ [] → fp ≤ mem.word fp) :
    mem.Frames fp (fp :: l) := by
  refine ⟨fun a ha => ?_, List.isChain_cons.mpr ⟨fun b hb => ?_, h.linked⟩, fun a ha => ?_⟩
  · rw [List.head?_cons, Option.mem_some] at ha
    exact ha.symm
  · have hne : l ≠ [] := by
      rintro rfl
      cases hb
    rw [h.head b hb]
    exact ⟨rfl, hle hne⟩
  · obtain rfl | ha := List.mem_cons.mp ha
    · exact hvalid
    · exact h.valid a ha

theorem Memory.Frames.of_cons {fp a : ℕ} {l : List ℕ} (h : mem.Frames fp (a :: l)) :
    a = fp ∧ mem.validate fp = true ∧ mem.Frames (mem.word fp) l ∧
      (l ≠ [] → fp ≤ mem.word fp) := by
  obtain rfl : a = fp := h.head a rfl
  obtain ⟨hnext, hlinked⟩ := List.isChain_cons.mp h.linked
  refine ⟨rfl, h.valid a List.mem_cons_self, ⟨fun b hb => (hnext b hb).1, hlinked,
    fun b hb => h.valid b (List.mem_cons_of_mem a hb)⟩, fun hne => ?_⟩
  obtain ⟨b, l, rfl⟩ := List.exists_cons_of_ne_nil hne
  obtain ⟨hb, hle⟩ := hnext b rfl
  rwa [hb] at hle

theorem Memory.Frames.initial {fp : ℕ} {l l' : List ℕ} (h : mem.Frames fp l) (hl : l' <+: l) :
    mem.Frames fp l' := by
  refine ⟨fun a ha => ?_, h.linked.prefix hl, fun a ha => h.valid a (hl.subset ha)⟩
  obtain ⟨r, rfl⟩ := hl
  cases l' with
  | nil => cases ha
  | cons b l' => exact h.head a ha

/-- The frames of a chain never descend. -/
theorem Memory.Frames.sorted {fp : ℕ} {l : List ℕ} (h : mem.Frames fp l) :
    l.Pairwise (· ≤ ·) :=
  List.isChain_iff_pairwise.mp (h.linked.imp fun _ _ hab => hab.2)

theorem Memory.Frames.le {fp : ℕ} {l : List ℕ} (h : mem.Frames fp l) : ∀ a ∈ l, fp ≤ a := by
  intro a ha
  cases l with
  | nil => cases ha
  | cons b l =>
    obtain rfl : b = fp := h.head b rfl
    obtain rfl | ha := List.mem_cons.mp ha
    · exact Nat.le_refl a
    · exact (List.pairwise_cons.mp h.sorted).1 a ha

/-- The frames that are visited are a chain. -/
theorem frames_of_walk {fuel last fp : ℕ} {s : σ} {w : Walked σ}
    (h : walk mem cb fuel last fp s = some w) :
    mem.Frames fp w.visited ∧ (w.visited ≠ [] → last ≤ fp) := by
  induction fuel generalizing last fp s w with
  | zero => cases h
  | succ fuel ih =>
    cases hnext : nextFrame mem (last, fp) with
    | none =>
      obtain ⟨w', hw', _, hnil⟩ := visited_of_none cb hnext fuel s
      obtain rfl := Option.some.inj (hw'.symm.trans h)
      rw [hnil]
      exact ⟨.nil fp, fun hne => absurd rfl hne⟩
    | some q =>
      -- the frame pointer is not below the last one, and validate accepts it
      obtain ⟨hdown, hvalid, rfl⟩ := nextFrame_eq_some hnext
      rw [walk_of_some hdown hvalid] at h
      refine ⟨?_, fun _ => by omega⟩
      split at h
      · obtain ⟨w', hw', rfl⟩ := Option.map_eq_some_iff.mp h
        obtain ⟨hframes, hle⟩ := ih hw'
        exact hframes.cons hvalid hle
      · obtain rfl := Option.some.inj h
        exact (Memory.Frames.nil _).cons hvalid fun hne => absurd rfl hne

/-! ### What is found -/

/-- The frame that a frame pointer stands for. -/
def Memory.frame (mem : Memory) (fp : ℕ) : IpFrame := ⟨mem.word (fp + 8)⟩

/-- The first frames that are found are the longest chain of so many. -/
theorem frames_of_found (mem : Memory) (n last fp : ℕ) :
    ∃ l, found (nextFrame mem) n (last, fp) = l.map mem.frame ∧ mem.Frames fp l ∧
      (l ≠ [] → last ≤ fp) ∧ l.length ≤ n ∧
      ∀ l', mem.Frames fp l' → (l' ≠ [] → last ≤ fp) → l'.length ≤ n → l' <+: l := by
  induction n generalizing last fp with
  | zero =>
    refine ⟨[], rfl, .nil fp, fun hne => absurd rfl hne, Nat.le_refl _, fun l' _ _ hlen => ?_⟩
    rw [List.eq_nil_of_length_eq_zero (Nat.le_zero.mp hlen)]
  | succ n ih =>
    rw [found]
    cases hnext : nextFrame mem (last, fp) with
    | none =>
      refine ⟨[], rfl, .nil fp, fun hne => absurd rfl hne, Nat.zero_le _, fun l' hl' hlast _ => ?_⟩
      cases l' with
      | nil => exact List.prefix_rfl
      | cons a l' =>
        -- a frame that could be read would have been found
        obtain ⟨_, hvalid, _, _⟩ := hl'.of_cons
        have hle := hlast (List.cons_ne_nil a l')
        rw [nextFrame, if_neg (by omega), if_pos hvalid] at hnext
        cases hnext
    | some q =>
      obtain ⟨hdown, hvalid, rfl⟩ := nextFrame_eq_some hnext
      obtain ⟨l, hfound, hframes, hle, hlen, hmax⟩ := ih fp (mem.word fp)
      refine ⟨fp :: l, ?_, hframes.cons hvalid hle, fun _ => by omega, ?_, ?_⟩
      · show (⟨mem.word (fp + 8)⟩ : IpFrame) :: found (nextFrame mem) n (fp, mem.word fp) = _
        rw [hfound]
        rfl
      · rw [List.length_cons]
        omega
      · intro l' hl' _ hlen'
        cases l' with
        | nil => exact List.nil_prefix
        | cons a l' =>
          obtain ⟨rfl, _, htail, hle'⟩ := hl'.of_cons
          rw [List.length_cons] at hlen'
          exact List.cons_prefix_cons.mpr ⟨rfl, hmax l' htail hle' (by omega)⟩

theorem prefix_takeWhile {α : Type*} {p : α → Bool} {l l' : List α} (h : l' <+: l)
    (hall : ∀ a ∈ l', p a = true) : l' <+: l.takeWhile p := by
  obtain ⟨r, rfl⟩ := h
  rw [List.takeWhile_append_of_pos hall]
  exact List.prefix_append _ _

namespace Profiler

variable [Target] {B : Type*} [Symbolizer]

/-- A chain of frames that return to addresses that are not blocked, within
`MAX_DEPTH`. -/
structure KeptFrames (p : Profiler IpFrame B) (mem : Memory) (fp : ℕ) (l : List ℕ) : Prop where
  frames : mem.Frames fp l
  unblocked : ∀ a ∈ l, p.isBlocklisted (mem.word (a + 8)) = false
  length_le : l.length ≤ Target.maxDepth

/-- The walk keeps the longest such chain. -/
theorem keptFrames_of_found (hbuild : Target.framePointer = true) (p : Profiler IpFrame B)
    (mem : Memory) (fp : ℕ) :
    ∃ l, (found (nextFrame mem) Target.maxDepth (0, fp)).takeWhile p.keeps = l.map mem.frame ∧
      p.KeptFrames mem fp l ∧ ∀ l', p.KeptFrames mem fp l' → l' <+: l := by
  obtain ⟨l, hfound, hframes, _, hlen, hmax⟩ := frames_of_found mem Target.maxDepth 0 fp
  have hkeeps : ∀ a, (p.keeps ∘ mem.frame) a = true ↔
      p.isBlocklisted (mem.word (a + 8)) = false := by
    intro a
    show (!(Target.framePointer && p.isBlocklisted (mem.word (a + 8)))) = true ↔ _
    rw [hbuild, Bool.true_and, Bool.not_eq_true']
  have hprefix : l.takeWhile (p.keeps ∘ mem.frame) <+: l := List.takeWhile_prefix _
  refine ⟨l.takeWhile (p.keeps ∘ mem.frame), ?_, ⟨hframes.initial hprefix, fun a ha => ?_,
    hprefix.length_le.trans hlen⟩, fun l' hl' => ?_⟩
  · rw [hfound, List.takeWhile_map]
  · exact (hkeeps a).mp (List.mem_takeWhile_imp ha)
  · exact prefix_takeWhile (hmax l' hl'.frames (fun _ => Nat.zero_le _) hl'.length_le)
      fun a ha => (hkeeps a).mpr (hl'.unblocked a ha)

/-- **The walk of the handler is bounded and safe.**  In a build with frame
pointers, whatever the memory holds, and from any frame pointer: the walk ends
without a fault; a frame is read only after `validate` accepted its 16 bytes;
the frames that are visited never descend; and the stack that is recorded has at
most `MAX_DEPTH` frames, the return addresses of the longest chain of readable
frames that neither descends nor comes to a blocked address. -/
theorem trace_bounded (hbuild : Target.framePointer = true) (p : Profiler IpFrame B)
    (mem : Memory) (fp : ℕ) {fuel : ℕ} (hfuel : Target.maxDepth < fuel) :
    ∃ w stack, walk mem p.pushFrame fuel 0 fp [] = some w ∧ w.state = some stack ∧
      Checked mem [] w.log ∧ w.visited.Pairwise (· ≤ ·) ∧ stack.length ≤ Target.maxDepth ∧
      ∃ l, stack = l.map mem.frame ∧ p.KeptFrames mem fp l ∧
        ∀ l', p.KeptFrames mem fp l' → l' <+: l := by
  obtain ⟨l, hfound, hkept, hmax⟩ := p.keptFrames_of_found hbuild mem fp
  have hroom : ([] : List IpFrame).length + Target.maxDepth = Target.maxDepth := Nat.zero_add _
  have hstate := walk_state mem p.pushFrame fuel 0 fp []
  rw [p.traceBy_pushFrame (nextFrame mem) hroom hfuel, hfound, List.nil_append] at hstate
  obtain ⟨w, hw, hstack⟩ := Option.map_eq_some_iff.mp hstate
  refine ⟨w, l.map mem.frame, hw, hstack, checked_of_walk hw [], (frames_of_walk hw).1.sorted, ?_,
    l, rfl, hkept, hmax⟩
  rw [List.length_map]
  exact hkept.length_le

end Profiler

/-! ### Any closure -/

/-- The memory of a 64-bit process. -/
structure AddressSpace extends Memory where
  readable_lt : ∀ addr, readable addr = true → addr < 2 ^ 64

theorem AddressSpace.lt_of_validate {mem : AddressSpace} {fp : ℕ}
    (h : mem.validate fp = true) : fp < 2 ^ 64 := by
  rw [Memory.validate, Bool.and_eq_true] at h
  exact mem.readable_lt fp (List.all_eq_true.mp h.2 0 (by simp))

/-- The walk from a frame pointer reaches the frame at `a`. -/
inductive Memory.Reaches (mem : Memory) : ℕ → ℕ → Prop where
  | here {fp : ℕ} (hvalid : mem.validate fp = true) : mem.Reaches fp fp
  | step {fp a : ℕ} (hvalid : mem.validate fp = true) (hle : fp ≤ mem.word fp)
      (h : mem.Reaches (mem.word fp) a) : mem.Reaches fp a

/-- With any closure the walk ends, and no return address is read twice. -/
def AddressSpace.NeverTwice (mem : AddressSpace) (fp : ℕ) : Prop :=
  ∀ (σ : Type) (cb : σ → IpFrame → σ × Bool) (s : σ),
    ∃ fuel w, walk mem.toMemory cb fuel 0 fp s = some w ∧ w.visited.Nodup

/-- A frame that points to itself is shown again and again, to a closure that
always answers `true`. -/
theorem walk_of_reaches {mem : Memory} {fp a : ℕ} (h : mem.Reaches fp a) (hself : mem.word a = a)
    (fuel last : ℕ) (hlast : last ≤ fp) :
    walk mem (fun (s : Unit) _ => (s, true)) fuel last fp () = none := by
  induction fuel generalizing last fp with
  | zero => rfl
  | succ fuel ih =>
    cases h with
    | here hvalid =>
      rw [walk_of_some (by omega) hvalid, if_pos rfl, hself,
        ih (.here hvalid) a (Nat.le_refl a), Option.map_none]
    | step hvalid hle h =>
      rw [walk_of_some (by omega) hvalid, if_pos rfl, ih h fp hle, Option.map_none]

/-- Without such a frame every round goes up, and the walk ends at the end of
the address space. -/
theorem walk_ends {mem : AddressSpace} (cb : σ → IpFrame → σ × Bool) (last fp : ℕ) (s : σ)
    (h : ∀ a, mem.Reaches fp a → mem.word a ≠ a) :
    ∃ fuel w, walk mem.toMemory cb fuel last fp s = some w ∧ w.visited.Pairwise (· < ·) := by
  induction hroom : 2 ^ 64 - fp using Nat.strong_induction_on generalizing last fp s with
  | _ room ih =>
    cases hnext : nextFrame mem.toMemory (last, fp) with
    | none =>
      obtain ⟨w, hw, _, hnil⟩ := visited_of_none cb hnext 0 s
      refine ⟨1, w, hw, ?_⟩
      rw [hnil]
      exact List.Pairwise.nil
    | some q =>
      obtain ⟨hdown, hvalid, rfl⟩ := nextFrame_eq_some hnext
      have hlt := AddressSpace.lt_of_validate hvalid
      have hrest : ∀ s', ∃ fuel w, walk mem.toMemory cb fuel fp (mem.word fp) s' = some w ∧
          w.visited.Pairwise (· < ·) ∧ ∀ a ∈ w.visited, fp < a := by
        intro s'
        obtain hup | hself | hfall := lt_trichotomy fp (mem.word fp)
        · obtain ⟨fuel, w, hw, hsorted⟩ := ih (2 ^ 64 - mem.word fp) (by omega) fp (mem.word fp) s'
            (fun a ha => h a (.step hvalid hup.le ha)) rfl
          exact ⟨fuel, w, hw, hsorted, fun a ha => hup.trans_le ((frames_of_walk hw).1.le a ha)⟩
        · exact absurd hself.symm (h fp (.here hvalid))
        · -- the frame pointer that was saved lies below: the next round stops
          exact ⟨1, ⟨some s', []⟩, if_pos ⟨by omega, hfall⟩, List.Pairwise.nil, fun a ha => by
            cases ha⟩
      obtain ⟨fuel, w, hw, hsorted, habove⟩ := hrest (cb s ⟨mem.word (fp + 8)⟩).1
      refine ⟨fuel + 1, ?_⟩
      rw [walk_of_some hdown hvalid]
      split
      · rw [hw]
        exact ⟨_, rfl, List.pairwise_cons.mpr ⟨habove, hsorted⟩⟩
      · exact ⟨_, rfl, List.pairwise_singleton _ fp⟩

/-- **When the walk shows no frame twice.**  Whatever the closure answers, the
walk ends and the frames at which it reads return addresses are distinct, if and
only if it reaches no frame that holds its own address. -/
theorem AddressSpace.never_twice_iff (mem : AddressSpace) (fp : ℕ) :
    mem.NeverTwice fp ↔ ∀ a, mem.Reaches fp a → mem.word a ≠ a := by
  constructor
  · intro h a ha hself
    obtain ⟨fuel, w, hw, _⟩ := h Unit (fun s _ => (s, true)) ()
    rw [walk_of_reaches ha hself fuel 0 (Nat.zero_le fp)] at hw
    cases hw
  · intro h σ cb s
    obtain ⟨fuel, w, hw, hlt⟩ := walk_ends cb 0 fp s h
    exact ⟨fuel, w, hw, hlt.imp fun hab => Nat.ne_of_lt hab⟩

end Pprof

/-! ### Given memories -/

namespace Pprof.Unwinding

/-- The frame pointer of the only frame that can be read. -/
def onlyFrame : ℕ := 0x7FFE00001000

/-- The frame holds its own address, and the return address `0x4011A0`. -/
def selfFrameBytes : List ℕ := [0x00, 0x10, 0x00, 0x00, 0xFE, 0x7F, 0x00, 0x00,
  0xA0, 0x11, 0x40, 0x00, 0x00, 0x00, 0x00, 0x00]

/-- A stack whose only readable frame points to itself; words are stored with
the low byte first. -/
def selfFrame : AddressSpace where
  readable addr := onlyFrame ≤ addr && addr < onlyFrame + 16
  word addr := (List.range 8).foldr
    (fun i word => selfFrameBytes.getD (addr + i - onlyFrame) 0 + 256 * word) 0
  readable_lt addr h := by
    have hlt : addr < onlyFrame + 16 := by
      rw [Bool.and_eq_true, decide_eq_true_eq, decide_eq_true_eq] at h
      exact h.2
    have hframe : onlyFrame + 16 < 2 ^ 64 := by decide
    omega

/-- A closure that takes two frames. -/
def takeTwo (n : ℕ) (_ : IpFrame) : ℕ × Bool := (n + 1, n = 0)

end Pprof.Unwinding

namespace Pprof

open Unwinding

/-- The handler's walk along one frame, which returns to `0x4011A0`. -/
theorem Profiler.trace_bounded_oneFrame :
    letI : Target := framePointerBuild
    ∃ (p : Profiler IpFrame Item) (w : _) (stack : _), Profiler.new true = .ok p ∧
      walk oneFrame p.pushFrame 129 0 onlyFrame [] = some w ∧ w.state = some stack ∧
      stack.length ≤ 128 := by
  let _ : Target := framePointerBuild
  obtain ⟨p, hp⟩ : ∃ p : Profiler IpFrame Item, Profiler.new true = .ok p := ⟨_, rfl⟩
  obtain ⟨w, stack, hw, hstack, _, _, hlen, _⟩ := trace_bounded rfl p oneFrame onlyFrame
    (show Target.maxDepth < 129 by decide)
  exact ⟨p, w, stack, hp, hw, hstack, hlen⟩

/-- A frame that points to itself is read twice, and a closure that always
answers `true` never ends the walk. -/
theorem AddressSpace.not_never_twice :
    (walk selfFrame.toMemory takeTwo 2 0 onlyFrame 0).map Walked.visited
      = some [onlyFrame, onlyFrame] ∧ ¬ selfFrame.NeverTwice onlyFrame := by
  refine ⟨by decide +kernel, fun h => ?_⟩
  obtain ⟨fuel, w, hw, _⟩ := h Unit (fun s _ => (s, true)) ()
  have hreaches : selfFrame.Reaches onlyFrame onlyFrame := .here (by decide +kernel)
  rw [walk_of_reaches hreaches (by decide +kernel) fuel 0 (Nat.zero_le _)] at hw
  cases hw

end Pprof
