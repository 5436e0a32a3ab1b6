/-
The segments of blocked libraries.

`blocklist` collects the bounds of every segment of the libraries whose name
contains a blocked name, and `is_blocklisted` compares an address with them.
A segment has its first address and not its end; both comparisons are strict,
so the first address of a blocked segment is not blocked (`Edge`).

* `isBlocklisted_iff` — what a profiler that was configured with the blocklist
  answers;
* `mem_backtrace_of_edge`, `not_inBlocked_of_mem_backtrace` — when the handler
  keeps a frame in a blocked segment;
* `covers_iff` — when the handler records nothing in a blocked segment, and
  everything else.
-/
import Pprof.Report

namespace Pprof

/-! ### Loaded libraries -/

/-- A segment of a library, by its actual virtual address; its end is an
address. -/
structure Segment where
  start : ℕ
  len : ℕ
  end_lt : start + len < 2 ^ 64

/-- The address lies in the segment. -/
def Segment.Contains (seg : Segment) (addr : ℕ) : Prop :=
  seg.start ≤ addr ∧ addr < seg.start + seg.len

/-- A loaded library; the name is `name().to_str()`, which is `none` for a name
that is not UTF-8. -/
structure SharedLibrary where
  name : Option String
  segments : List Segment

/-- `str::contains`. -/
def strContains (name blockedName : String) : Bool := decide (blockedName.toList <:+: name.toList)

/-- `in_blocklist`. -/
def SharedLibrary.inBlocklist (shlib : SharedLibrary) (blocklist : List String) : Bool :=
  match shlib.name with
  | some name => blocklist.any fun blockedName => strContains name blockedName
  | none => false

/-- The loops of `ProfilerGuardBuilder::blocklist`. -/
def blockedSegments (shlibs : List SharedLibrary) (blocklist : List String) : List (ℕ × ℕ) :=
  shlibs.foldl (fun segments shlib =>
    if shlib.inBlocklist blocklist then
      shlib.segments.foldl (fun segments seg => segments ++ [(seg.start, seg.start + seg.len)])
        segments
    else segments) []

/-- `ProfilerGuardBuilder::blocklist`, with the libraries that are loaded. -/
def ProfilerGuardBuilder.blocklist (shlibs : List SharedLibrary) (blocklist : List String)
    (b : ProfilerGuardBuilder) : ProfilerGuardBuilder :=
  { b with blocklistSegments := blockedSegments shlibs blocklist }

/-! ### Blocked segments -/

/-- The segment belongs to a library whose name contains a blocked name. -/
def Blocked (shlibs : List SharedLibrary) (blocklist : List String) (seg : Segment) : Prop :=
  ∃ shlib ∈ shlibs, seg ∈ shlib.segments ∧ ∃ name, shlib.name = some name ∧
    ∃ blockedName ∈ blocklist, blockedName.toList <:+: name.toList

/-- The address lies in a blocked segment. -/
def InBlocked (shlibs : List SharedLibrary) (blocklist : List String) (addr : ℕ) : Prop :=
  ∃ seg, Blocked shlibs blocklist seg ∧ seg.Contains addr

/-- The first address of a blocked segment that has one, and behind the first
address of none. -/
def Edge (shlibs : List SharedLibrary) (blocklist : List String) (addr : ℕ) : Prop :=
  (∃ seg, Blocked shlibs blocklist seg ∧ 0 < seg.len ∧ addr = seg.start) ∧
    ∀ seg, Blocked shlibs blocklist seg → addr ≤ seg.start ∨ seg.start + seg.len ≤ addr

theorem inBlocklist_iff {shlib : SharedLibrary} {blocklist : List String} :
    shlib.inBlocklist blocklist = true ↔ ∃ name, shlib.name = some name ∧
      ∃ blockedName ∈ blocklist, blockedName.toList <:+: name.toList := by
  rw [SharedLibrary.inBlocklist]
  cases shlib.name with
  | none => simp
  | some name => simp [strContains]

theorem foldl_segments (segs : List Segment) (segments : List (ℕ × ℕ)) :
    segs.foldl (fun segments seg => segments ++ [(seg.start, seg.start + seg.len)]) segments
      = segments ++ segs.map fun seg => (seg.start, seg.start + seg.len) := by
  induction segs generalizing segments with
  | nil => rw [List.foldl_nil, List.map_nil, List.append_nil]
  | cons seg segs ih =>
    rw [List.foldl_cons, ih, List.append_assoc, List.singleton_append, List.map_cons]

theorem blockedSegments_eq (shlibs : List SharedLibrary) (blocklist : List String) :
    blockedSegments shlibs blocklist
      = ((shlibs.filter fun shlib => shlib.inBlocklist blocklist).flatMap
          SharedLibrary.segments).map fun seg => (seg.start, seg.start + seg.len) := by
  -- the fold appends behind what it starts from, so the induction is over any start
  have hfold : ∀ segments, shlibs.foldl (fun segments shlib =>
      if shlib.inBlocklist blocklist then
        shlib.segments.foldl (fun segments seg => segments ++ [(seg.start, seg.start + seg.len)])
          segments
      else segments) segments = segments ++
        ((shlibs.filter fun shlib => shlib.inBlocklist blocklist).flatMap
          SharedLibrary.segments).map fun seg => (seg.start, seg.start + seg.len) := by
    induction shlibs with
    | nil =>
      intro segments
      exact (List.append_nil segments).symm
    | cons shlib shlibs ih =>
      intro segments
      rw [List.foldl_cons, ih]
      by_cases hin : shlib.inBlocklist blocklist = true
      · rw [if_pos hin, foldl_segments, List.filter_cons_of_pos (by exact hin), List.flatMap_cons,
          List.map_append, List.append_assoc]
      · rw [if_neg hin, List.filter_cons_of_neg (by exact hin)]
  exact (hfold []).trans (List.nil_append _)

/-- The bounds that are collected are those of the blocked segments. -/
theorem mem_blockedSegments {shlibs : List SharedLibrary} {blocklist : List String}
    {bounds : ℕ × ℕ} : bounds ∈ blockedSegments shlibs blocklist ↔
      ∃ seg, Blocked shlibs blocklist seg ∧ (seg.start, seg.start + seg.len) = bounds := by
  rw [blockedSegments_eq, List.mem_map]
  refine exists_congr fun seg => and_congr_left fun _ => ?_
  rw [List.mem_flatMap]
  refine exists_congr fun shlib => ?_
  rw [List.mem_filter, inBlocklist_iff, and_assoc]
  exact and_congr_right fun _ => And.comm

/-- An address in a blocked segment is at its edge, or lies strictly inside a
blocked segment. -/
theorem inBlocked_iff {shlibs : List SharedLibrary} {blocklist : List String} {addr : ℕ} :
    InBlocked shlibs blocklist addr ↔ Edge shlibs blocklist addr ∨
      ∃ seg, Blocked shlibs blocklist seg ∧ seg.start < addr ∧ addr < seg.start + seg.len := by
  constructor
  · rintro ⟨seg, hseg, hstart, hend⟩
    -- inside some segment, or only at the start of one
    by_cases hinside : ∃ seg, Blocked shlibs blocklist seg ∧ seg.start < addr ∧
        addr < seg.start + seg.len
    · exact .inr hinside
    · have houtside : ∀ seg, Blocked shlibs blocklist seg →
          addr ≤ seg.start ∨ seg.start + seg.len ≤ addr := by
        intro seg hseg
        by_contra h
        exact hinside ⟨seg, hseg, by omega, by omega⟩
      have hedge := houtside seg hseg
      exact .inl ⟨⟨seg, hseg, by omega, by omega⟩, houtside⟩
  · rintro (⟨⟨seg, hseg, hpos, rfl⟩, _⟩ | ⟨seg, hseg, hstart, hend⟩)
    · exact ⟨seg, hseg, Nat.le_refl _, by omega⟩
    · exact ⟨seg, hseg, hstart.le, hend⟩

/-! ### What the profiler answers -/

variable [Target] {F B : Type*} {shlibs : List SharedLibrary} {names : List String}

/-- A profiler with the configuration of the builder. -/
def withBlocklist (shlibs : List SharedLibrary) (names : List String) (b : ProfilerGuardBuilder)
    (p : Profiler F B) : Profiler F B := (b.blocklist shlibs names).configure p

/-- An address is blocked if it lies in a blocked segment, and not at an edge. -/
theorem isBlocklisted_iff (b : ProfilerGuardBuilder) (p : Profiler F B) (addr : ℕ) :
    (withBlocklist shlibs names b p).isBlocklisted addr = true ↔
      InBlocked shlibs names addr ∧ ¬ Edge shlibs names addr := by
  -- the code's test: strictly inside some segment of a blocked library
  have hany : (withBlocklist shlibs names b p).isBlocklisted addr = true ↔
      ∃ seg, Blocked shlibs names seg ∧ seg.start < addr ∧ addr < seg.start + seg.len := by
    show (blockedSegments shlibs names).any _ = true ↔ _
    rw [List.any_eq_true]
    constructor
    · rintro ⟨bounds, hmem, hbounds⟩
      obtain ⟨seg, hseg, rfl⟩ := mem_blockedSegments.mp hmem
      rw [Bool.and_eq_true, decide_eq_true_eq, decide_eq_true_eq] at hbounds
      exact ⟨seg, hseg, hbounds⟩
    · rintro ⟨seg, hseg, hbounds⟩
      refine ⟨_, mem_blockedSegments.mpr ⟨seg, hseg, rfl⟩, ?_⟩
      rw [Bool.and_eq_true, decide_eq_true_eq, decide_eq_true_eq]
      exact hbounds
  rw [hany, inBlocked_iff]
  constructor
  · intro hinside
    refine ⟨.inr hinside, fun hedge => ?_⟩
    obtain ⟨seg, hseg, hstart, hend⟩ := hinside
    have houtside := hedge.2 seg hseg
    omega
  · rintro ⟨hin, hedge⟩
    exact hin.resolve_left hedge

/-! ### What the handler records -/

section Handler

variable [Frame F]

/-- A sample that is interrupted in a blocked segment is not recorded, any other
one is; and with the feature `frame-pointer` no frame that is recorded lies in a
blocked segment. -/
structure Covers (shlibs : List SharedLibrary) (names : List String) (i : Interrupt F)
    (stack : Option (UnresolvedFrames F)) : Prop where
  blocked : ∀ addr ∈ i.addr, InBlocked shlibs names addr → stack = none
  unblocked : (∀ addr ∈ i.addr, ¬ InBlocked shlibs names addr) → stack.isSome
  frames : Target.framePointer = true → ∀ frames, stack = some frames →
    ∀ frame ∈ frames.frames, ¬ InBlocked shlibs names (Frame.ip frame)

/-- The first frame in a blocked segment, if it is shown before the stack is
full, is not at an edge. -/
def FirstNotAtEdge (shlibs : List SharedLibrary) (names : List String) (shown : List F) : Prop :=
  ∀ before frame after, shown = before ++ frame :: after → before.length < Target.maxDepth →
    (∀ f ∈ before, ¬ InBlocked shlibs names (Frame.ip f)) → ¬ Edge shlibs names (Frame.ip frame)

/-- An invocation records nothing if the program counter is in a blocked segment
and not at an edge, and what the unwinder shows otherwise. -/
theorem recorded_cases (b : ProfilerGuardBuilder) (p : Profiler F B) (i : Interrupt F) :
    ((∃ addr ∈ i.addr, InBlocked shlibs names addr ∧ ¬ Edge shlibs names addr) ∧
      (withBlocklist shlibs names b p).recorded i = none) ∨
    (∀ addr ∈ i.addr, InBlocked shlibs names addr → Edge shlibs names addr) ∧
      (withBlocklist shlibs names b p).recorded i
        = some (.new ((withBlocklist shlibs names b p).backtrace i.frames) i.threadName i.threadId
            i.now) := by
  rw [Profiler.recorded]
  by_cases hany : i.addr.any (withBlocklist shlibs names b p).isBlocklisted = true
  · rw [if_pos hany]
    obtain ⟨addr, haddr, hblocked⟩ := (Option.any_eq_true _ _).mp hany
    exact .inl ⟨⟨addr, haddr, (isBlocklisted_iff b p addr).mp hblocked⟩, rfl⟩
  · rw [if_neg hany]
    refine .inr ⟨fun addr haddr hin => ?_, rfl⟩
    by_contra hedge
    have hblocked := (isBlocklisted_iff b p addr).mpr ⟨hin, hedge⟩
    exact hany ((Option.any_eq_true _ _).mpr ⟨addr, haddr, hblocked⟩)

/-- A frame at an edge is kept, if it is the first one in a blocked segment. -/
theorem mem_backtrace_of_edge (b : ProfilerGuardBuilder) (p : Profiler F B)
    {before after : List F} {frame : F} (hlen : before.length < Target.maxDepth)
    (hbefore : ∀ f ∈ before, ¬ InBlocked shlibs names (Frame.ip f))
    (hedge : Edge shlibs names (Frame.ip frame)) :
    frame ∈ (withBlocklist shlibs names b p).backtrace (before ++ frame :: after) := by
  set q := withBlocklist shlibs names b p with hq
  -- neither the frames before nor the one at the edge is blocked, so the loop goes past them
  have hkeeps : ∀ f ∈ before ++ [frame],
      (!(Target.framePointer && q.isBlocklisted (Frame.ip f))) = true := by
    intro f hf
    have hunblocked : ¬ q.isBlocklisted (Frame.ip f) = true := by
      rw [hq, isBlocklisted_iff]
      obtain hf | hf := List.mem_append.mp hf
      · exact fun h => hbefore f hf h.1
      · rw [List.mem_singleton.mp hf]
        exact fun h => h.2 hedge
    rw [Bool.eq_false_iff.mpr hunblocked, Bool.and_false, Bool.not_false]
  have hsplit : before ++ frame :: after = (before ++ [frame]) ++ after := by
    rw [List.append_assoc, List.singleton_append]
  have hfits : (before ++ [frame]).length ≤ Target.maxDepth := by
    rw [List.length_append, List.length_singleton]
    omega
  rw [Profiler.backtrace, hsplit, List.takeWhile_append_of_pos hkeeps, List.take_append,
    List.take_of_length_le hfits]
  exact List.mem_append_left _ (List.mem_append_right _ List.mem_cons_self)

/-- Otherwise no frame in a blocked segment is kept. -/
theorem not_inBlocked_of_mem_backtrace (hbuild : Target.framePointer = true)
    (b : ProfilerGuardBuilder) (p : Profiler F B) {shown : List F}
    (hfirst : FirstNotAtEdge shlibs names shown) :
    ∀ frame ∈ (withBlocklist shlibs names b p).backtrace shown,
      ¬ InBlocked shlibs names (Frame.ip frame) := by
  set q := withBlocklist shlibs names b p with hq
  classical
  intro frame hmem hin
  -- the first frame that is kept in a blocked segment
  have hsome : ((q.backtrace shown).find? fun f => InBlocked shlibs names (Frame.ip f)).isSome :=
    List.find?_isSome.mpr ⟨frame, hmem, decide_eq_true hin⟩
  obtain ⟨f, hf⟩ := Option.isSome_iff_exists.mp hsome
  obtain ⟨hfin, before, rest, hkept, hbefore⟩ := List.find?_eq_some_iff_append.mp hf
  have hprefix : q.backtrace shown <+: shown :=
    (List.take_prefix _ _).trans (List.takeWhile_prefix _)
  obtain ⟨after, hafter⟩ := hprefix
  have hlen : (q.backtrace shown).length ≤ Target.maxDepth := List.length_take_le _ _
  rw [hkept, List.length_append, List.length_cons] at hlen
  have hnot : ¬ Edge shlibs names (Frame.ip f) := by
    refine hfirst before f (rest ++ after) ?_ (by omega) fun g hg => ?_
    · rw [← hafter, hkept, List.append_assoc, List.cons_append]
    · have hout := hbefore g hg
      simpa using hout
  -- such a frame would have ended the walk
  have hmemf : f ∈ q.backtrace shown := by
    rw [hkept]
    exact List.mem_append_right _ List.mem_cons_self
  have hkeeps := List.mem_takeWhile_imp (List.mem_of_mem_take hmemf)
  have hblocked : q.isBlocklisted (Frame.ip f) = true :=
    (isBlocklisted_iff b p _).mpr ⟨of_decide_eq_true hfin, hnot⟩
  rw [hbuild, hblocked] at hkeeps
  cases hkeeps

/-- **Which samples the blocklist covers.**  With any libraries, blocked names
and configured profiler: nothing is recorded in a blocked segment, and everything
else is, exactly when the interrupted address is not the first one of a blocked
segment, nor is the first frame in a blocked segment, where frames are
compared. -/
theorem covers_iff (shlibs : List SharedLibrary) (names : List String) (b : ProfilerGuardBuilder)
    (p : Profiler F B) (i : Interrupt F) :
    Covers shlibs names i (((b.blocklist shlibs names).configure p).recorded i) ↔
      (∀ addr ∈ i.addr, ¬ Edge shlibs names addr) ∧
      (Target.framePointer = true → (∀ addr ∈ i.addr, ¬ InBlocked shlibs names addr) →
        FirstNotAtEdge shlibs names i.frames) := by
  show Covers shlibs names i ((withBlocklist shlibs names b p).recorded i) ↔ _
  obtain ⟨⟨addr, haddr, hin, hedge⟩, hrec⟩ | ⟨hpass, hrec⟩ := recorded_cases b p i
  · -- a null context has no program counter, another one has just this
    have hsame : ∀ a ∈ i.addr, a = addr := fun a ha => Option.some.inj (ha.symm.trans haddr)
    rw [hrec]
    refine ⟨fun _ => ⟨fun a ha => hsame a ha ▸ hedge, fun _ hout => absurd hin (hout addr haddr)⟩,
      fun _ => ⟨fun _ _ _ => rfl, fun hout => absurd hin (hout addr haddr), fun _ _ h => ?_⟩⟩
    cases h
  · rw [hrec]
    constructor
    · intro h
      refine ⟨fun addr haddr hedge => ?_, fun hbuild _ => ?_⟩
      · cases h.blocked addr haddr (inBlocked_iff.mpr (.inl hedge))
      · intro before frame after hshown hlen hbefore hedge
        refine h.frames hbuild _ rfl frame ?_ (inBlocked_iff.mpr (.inl hedge))
        show frame ∈ (withBlocklist shlibs names b p).backtrace i.frames
        rw [hshown]
        exact mem_backtrace_of_edge b p hlen hbefore hedge
    · rintro ⟨hedge, hfirst⟩
      have hout : ∀ addr ∈ i.addr, ¬ InBlocked shlibs names addr :=
        fun addr haddr hin => hedge addr haddr (hpass addr haddr hin)
      refine ⟨fun addr haddr hin => absurd hin (hout addr haddr), fun _ => rfl, ?_⟩
      intro hbuild frames hframes
      obtain rfl := Option.some.inj hframes
      exact not_inBlocked_of_mem_backtrace hbuild b p (hfirst hbuild hout)

end Handler

end Pprof

/-! ### A given library -/

namespace Pprof

open Given

/-- The text segment of `libgcc`. -/
def libgccText : Segment := ⟨0x7F0000001000, 0x1000, by decide⟩

/-- A process that has loaded `libgcc`. -/
def libgcc : SharedLibrary := ⟨some "/lib/libgcc_s.so.1", [libgccText]⟩

/-- A thread that is interrupted at an address. -/
def interruptAt (addr : ℕ) : Interrupt ℕ := ⟨some addr, [addr], threadName, 0x7FFFF7D8A740, 0⟩

/-- A sample at the first address of the segment is recorded, one at the next
address is not. -/
theorem not_covers :
    ∃ p : Profiler ℕ Item, Profiler.new true = .ok p ∧
      ((((ProfilerGuardBuilder.default.blocklist [libgcc] ["libgcc"]).configure p).recorded
        (interruptAt 0x7F0000001001)) = none) ∧
      ¬ Covers [libgcc] ["libgcc"] (interruptAt 0x7F0000001000)
        (((ProfilerGuardBuilder.default.blocklist [libgcc] ["libgcc"]).configure p).recorded
          (interruptAt 0x7F0000001000)) := by
  refine ⟨_, rfl, by decide +kernel, fun h => ?_⟩
  have hin : InBlocked [libgcc] ["libgcc"] 0x7F0000001000 := by
    refine ⟨libgccText, ⟨libgcc, List.mem_cons_self, List.mem_cons_self, _, rfl, _,
      List.mem_cons_self, by decide +kernel⟩, ?_⟩
    exact ⟨Nat.le_refl _, by decide⟩
  have hnone := h.blocked 0x7F0000001000 rfl hin
  exact absurd hnone (by decide +kernel)

end Pprof
