/-
The resolver of the perf map and its refreshes.

`get_resolver` starts a thread that runs `init_resolver` and stores what it
returns in `RESOLVER`, and answers with what `RESOLVER` holds.  `RESOLVER` is
made when it is first needed, by a run of `init_resolver` whose result it holds
even if that is nothing; a refresh that has something to store waits for it.

The file only grows, and each append sets its modification time.  A run of
`init_resolver` opens the file, reads its modification time, compares it in
whole seconds with `MTIME`, records it there, and reads the file in pieces while
it may grow.  One event is one of these steps of one run; the steps of the runs
and the appends interleave in any order.

* `Timely` — a run that finds the recorded second in the modification time
  misses nothing, and a store replaces nothing that is not awaited;
* `Consistent` — what holds in every state that is reached by steps that are in
  time;
* `catches_up` — when they have all finished, the refreshes have caught up.
-/
import Pprof.PerfMap
import Pprof.Timer
import Pprof.Transition

open Transition

namespace Pprof

/-- A perf map file. -/
structure PerfMapFile where
  content : List UInt8
  modified : SystemTime
  deriving DecidableEq

/-- The whole seconds of the modification time, `none` before `UNIX_EPOCH`. -/
def PerfMapFile.secs (f : PerfMapFile) : Option ℕ :=
  if 0 ≤ f.modified then some (f.modified / 1000000000).toNat else none

/-- Where a run of `init_resolver` stands. -/
inductive Phase where
  /-- Before `File::open`. -/
  | started
  /-- Before the modification time is read. -/
  | opened
  /-- Before the modification time is compared with `MTIME`. -/
  | dated (mtime : ℕ)
  /-- Before the modification time is stored in `MTIME`. -/
  | changed (mtime : ℕ)
  /-- In `PerfMap::new`: the bytes it has read, and for statements how many they
  were when the file first ended inside a line. -/
  | reading (offset : ℕ) (reader : LineReader) (cut : Option ℕ)
  /-- It has returned; `size` is for statements: the bytes of the file that the
  map was read from, if all its lines were whole. -/
  | returned (map : Option PerfMap) (size : Option ℕ)
  | finished
  deriving DecidableEq

/-- A run of `init_resolver`: that which makes `RESOLVER`, or a refresh. -/
structure Run where
  lazy : Bool
  phase : Phase
  deriving DecidableEq

namespace Phase

/-- It has found `MTIME` changed and no end of the file so far. -/
def willRead : Phase → Bool
  | .changed _ | .reading _ _ none => true
  | _ => false

/-- Its next step records the modification time in `MTIME`. -/
def records : Phase → Bool
  | .changed _ => true
  | _ => false

end Phase

/-- The perf map file, `MTIME` and `RESOLVER`, and the runs of `init_resolver`.
Only statements read `size`, `refreshed` and `unread`. -/
structure Resolver where
  file : Option PerfMapFile
  mtime : ℕ
  /-- `none` until `RESOLVER` is made. -/
  installed : Option (Option PerfMap)
  forced : Bool
  runs : List Run
  /-- The bytes that the installed map was read from. -/
  size : Option ℕ
  /-- A refresh has started since the last append. -/
  refreshed : Bool
  /-- The last append came after `MTIME` was recorded, and no run was on its way
  to read it. -/
  unread : Bool
  deriving DecidableEq

namespace Resolver

/-- Before the first append. -/
def new : Resolver := ⟨none, 0, none, false, [], none, false, false⟩

inductive Event where
  | append (bytes : List UInt8) (now : SystemTime)
  /-- `get_resolver` starts a thread. -/
  | refresh
  /-- `RESOLVER` is needed: it is made, now. -/
  | force (now : SystemTime)
  /-- The next step of the `i`-th run; a read takes at most `n` bytes. -/
  | advance (i n : ℕ)
  /-- The `i`-th run stores what it returned. -/
  | store (i : ℕ)

def content (s : Resolver) : List UInt8 := s.file.elim [] PerfMapFile.content

/-- `touch`: the file is there afterwards. -/
def touch (now : SystemTime) (file : Option PerfMapFile) : PerfMapFile :=
  file.getD ⟨[], now⟩

/-- One read of `PerfMap::new`. -/
def read (content : List UInt8) (n offset : ℕ) (reader : LineReader) (cut : Option ℕ) : Phase :=
  let bytes := (content.drop offset).take n
  if bytes = [] then
    if reader.pending = [] then
      .returned (some ⟨reader.ranges⟩) (if cut.any (· ≠ offset) then none else some offset)
    else
      -- the rest is a line; the next read may find more
      match reader.atEof with
      | some reader => .reading offset reader (some (cut.getD offset))
      | none => .returned none none
  else
    match reader.readBytes bytes with
    | some reader => .reading (offset + bytes.length) reader cut
    | none => .returned none none

/-- The next step of `init_resolver`, and `MTIME` after it. -/
def initResolver (s : Resolver) (n : ℕ) : Phase → Option (Phase × ℕ)
  | .started => some (if s.file.isSome then .opened else .returned none none, s.mtime)
  | .opened =>
    match s.file.bind PerfMapFile.secs with
    | some mtime => some (.dated mtime, s.mtime)
    | none => some (.returned none none, s.mtime)
  | .dated mtime =>
    some (if s.mtime = mtime then .returned none none else .changed mtime, s.mtime)
  | .changed mtime => some (.reading 0 .new none, mtime)
  | .reading offset reader cut =>
    match s.file with
    | some file =>
      if n = 0 then none else some (read file.content n offset reader cut, s.mtime)
    | none => none
  | .returned _ _ | .finished => none

/-- One event. -/
def step (s : Resolver) : Event → Option Resolver
  | .append bytes now =>
    some { s with
      file := some ⟨s.content ++ bytes, now⟩, refreshed := false
      unread := !s.runs.any fun r => r.phase.willRead }
  | .refresh => some { s with runs := s.runs ++ [⟨false, .started⟩], refreshed := true }
  | .force now =>
    if s.forced then none
    else
      some { s with
        file := some (touch now s.file), forced := true, runs := s.runs ++ [⟨true, .started⟩]
        unread := s.unread || s.file.isNone }
  | .advance i n =>
    match s.runs[i]? with
    | none => none
    | some ⟨false, .returned none _⟩ =>
      -- a refresh without a map stores nothing
      some { s with runs := s.runs.set i ⟨false, .finished⟩ }
    | some ⟨lazy, phase⟩ =>
      match s.initResolver n phase with
      | some (next, mtime) =>
        some { s with
          mtime := mtime, unread := s.unread && !phase.records
          runs := s.runs.set i ⟨lazy, next⟩ }
      | none => none
  | .store i =>
    match s.runs[i]? with
    | some ⟨true, .returned map size⟩ =>
      some { s with
        installed := some map, size := size, runs := s.runs.set i ⟨true, .finished⟩ }
    | some ⟨false, .returned (some map) size⟩ =>
      -- a refresh waits until `RESOLVER` is made
      if s.installed.isSome then
        some { s with
          installed := some (some map), size := size, runs := s.runs.set i ⟨false, .finished⟩ }
      else none
    | _ => none

/-- Once every run has finished, a refresh has started since the last append and
the file parses, the resolver holds the map of the file. -/
def CaughtUp (s : Resolver) : Prop :=
  (∀ r ∈ s.runs, r.phase = .finished) → s.refreshed = true →
    ∀ f, s.file = some f → ∀ m, PerfMap.new f.content = some m → s.installed = some (some m)

end Resolver

namespace Phase

/-- It has not looked at `MTIME`, and the modification time that it may have read
is that of the file. -/
def early (secs : Option ℕ) : Phase → Bool
  | .started | .opened => true
  | .dated mtime => secs = some mtime
  | _ => false

/-- It finds no second in the modification time of the file, or the recorded one,
and will not read the file. -/
def skips (recorded : ℕ) (secs : Option ℕ) : Phase → Bool
  | .opened => secs.isNone
  | .dated mtime => recorded = mtime && secs = some mtime
  | _ => false

/-- Its map is that of the first `length` bytes, or will be that of the whole file. -/
def delivers (length : ℕ) : Phase → Bool
  | .changed _ | .reading _ _ none => true
  | .reading _ _ (some cut) => cut = length
  | .returned (some _) size => size = some length
  | _ => false

/-- What has been read is what the file starts with. -/
def Sound (content : List UInt8) : Phase → Prop
  | .reading offset reader none => offset ≤ content.length ∧
    LineReader.new.readBytes (content.take offset) = some reader
  | .reading offset reader (some cut) => cut ≤ offset ∧ offset ≤ content.length ∧
    (cut = offset →
      PerfMap.new (content.take offset) = some ⟨reader.ranges⟩ ∧ reader.pending = [])
  | .returned (some map) (some size) => size ≤ content.length ∧
    PerfMap.new (content.take size) = some map
  | .returned none size => size = none
  | _ => True

theorem delivers_of_willRead {p : Phase} (h : p.willRead = true) (length : ℕ) :
    p.delivers length = true := by
  cases p with
  | changed mtime => rfl
  | reading offset reader cut =>
    cases cut with
    | none => rfl
    | some cut => cases h
  | _ => cases h

/-- The file only grows. -/
theorem Sound.append {p : Phase} {content : List UInt8} (h : p.Sound content)
    (bytes : List UInt8) : p.Sound (content ++ bytes) := by
  have hlength : content.length ≤ (content ++ bytes).length := by
    rw [List.length_append]
    omega
  cases p with
  | reading offset reader cut =>
    cases cut with
    | none =>
      obtain ⟨hle, hread⟩ := h
      refine ⟨hle.trans hlength, ?_⟩
      -- what was read lies in the old content, which the append leaves as it is
      rw [List.take_append_of_le_length hle]
      exact hread
    | some cut =>
      obtain ⟨hcut, hle, hread⟩ := h
      refine ⟨hcut, hle.trans hlength, ?_⟩
      rw [List.take_append_of_le_length hle]
      exact hread
  | returned map size =>
    cases map with
    | none => exact h
    | some map =>
      cases size with
      | none => trivial
      | some size =>
        obtain ⟨hle, hread⟩ := h
        refine ⟨hle.trans hlength, ?_⟩
        rw [List.take_append_of_le_length hle]
        exact hread
  | _ => trivial

end Phase

namespace Resolver

/-! ### One read -/

/-- What is read comes after what has been read. -/
theorem take_read (content : List UInt8) (n offset : ℕ) :
    content.take (offset + ((content.drop offset).take n).length)
      = content.take offset ++ (content.drop offset).take n := by
  rw [List.take_add, List.length_take, List.take_eq_take_min (i := n)]

/-- A read finds nothing exactly at the end of the file. -/
theorem length_le_of_read_eq_nil {content : List UInt8} {n offset : ℕ} (hn : n ≠ 0)
    (h : (content.drop offset).take n = []) : content.length ≤ offset := by
  rcases List.take_eq_nil_iff.mp h with h | h
  · exact absurd h hn
  · exact List.drop_eq_nil_iff.mp h

/-- A read at the end of the file. -/
theorem read_end {content : List UInt8} {n offset : ℕ} {reader : LineReader} {cut : Option ℕ}
    (hend : (content.drop offset).take n = []) (hlength : offset = content.length)
    (h : (Phase.reading offset reader cut).Sound content) :
    (read content n offset reader cut).Sound content ∧
    ((Phase.reading offset reader cut).delivers content.length = true →
      (read content n offset reader cut).delivers content.length = true ∨
        PerfMap.new content = none) := by
  subst hlength
  rw [read, if_pos hend]
  cases cut with
  | none =>
    obtain ⟨_, hread⟩ := h
    rw [List.take_length] at hread
    by_cases hpending : reader.pending = []
    · -- the last line was whole: this is the map
      have heof : reader.atEof = some reader := by rw [LineReader.atEof, if_pos hpending]
      rw [if_pos hpending]
      refine ⟨⟨le_rfl, ?_⟩, fun _ => .inl (decide_eq_true rfl)⟩
      rw [List.take_length]
      exact PerfMap.new_eq_some hread heof
    · rw [if_neg hpending]
      -- the rest is taken for a line
      cases heof : reader.atEof with
      | none => exact ⟨rfl, fun _ => .inr (PerfMap.new_eq_none hread heof)⟩
      | some reader' =>
        refine ⟨⟨le_rfl, le_rfl, fun _ => ⟨?_, LineReader.atEof_pending heof⟩⟩,
          fun _ => .inl (decide_eq_true rfl)⟩
        rw [List.take_length]
        exact PerfMap.new_eq_some hread heof
  | some cut =>
    obtain ⟨hcut, _, hwhole⟩ := h
    by_cases hpending : reader.pending = []
    · rw [if_pos hpending]
      by_cases heq : cut = content.length
      · -- nothing was appended since the rest was taken for a line
        obtain ⟨hnew, _⟩ := hwhole heq
        rw [if_neg (by simp [heq])]
        exact ⟨⟨le_rfl, hnew⟩, fun _ => .inl (decide_eq_true rfl)⟩
      · rw [if_pos (by simp [heq])]
        exact ⟨trivial, fun hdelivers => absurd (of_decide_eq_true hdelivers) heq⟩
    · -- something was appended after a rest had been taken for a line
      have hne : cut ≠ content.length := fun heq => hpending (hwhole heq).2
      rw [if_neg hpending]
      cases reader.atEof with
      | none => exact ⟨rfl, fun hdelivers => absurd (of_decide_eq_true hdelivers) hne⟩
      | some reader' =>
        exact ⟨⟨hcut, le_rfl, fun heq => absurd heq hne⟩,
          fun hdelivers => absurd (of_decide_eq_true hdelivers) hne⟩

/-- A read that finds more of the file. -/
theorem read_more {content : List UInt8} {n offset : ℕ} {reader : LineReader} {cut : Option ℕ}
    (hmore : (content.drop offset).take n ≠ [])
    (h : (Phase.reading offset reader cut).Sound content) :
    (read content n offset reader cut).Sound content ∧
    ((Phase.reading offset reader cut).delivers content.length = true →
      (read content n offset reader cut).delivers content.length = true ∨
        PerfMap.new content = none) := by
  have hpos : 0 < ((content.drop offset).take n).length := List.length_pos_iff.mpr hmore
  have hle : offset + ((content.drop offset).take n).length ≤ content.length := by
    rw [List.length_take, List.length_drop] at hpos ⊢
    omega
  rw [read, if_neg hmore]
  cases cut with
  | none =>
    obtain ⟨_, hread⟩ := h
    -- what has been read and this read are a prefix of the file, so the reader has read that
    have hbytes : LineReader.new.readBytes
        (content.take (offset + ((content.drop offset).take n).length))
          = reader.readBytes ((content.drop offset).take n) := by
      rw [take_read, LineReader.readBytes_append, hread, Option.bind_some]
    cases hnext : reader.readBytes ((content.drop offset).take n) with
    | some reader' =>
      rw [hnext] at hbytes
      exact ⟨⟨hle, hbytes⟩, fun _ => .inl rfl⟩
    | none =>
      rw [hnext] at hbytes
      -- a line that does not parse stops the run, and is a line of the file too
      refine ⟨rfl, fun _ => .inr ?_⟩
      rw [← List.take_append_drop (offset + ((content.drop offset).take n).length) content]
      exact PerfMap.new_append_eq_none hbytes _
  | some cut =>
    obtain ⟨hcut, _, _⟩ := h
    -- a file that was cut is longer than it was then
    have hne : cut ≠ content.length := by omega
    cases reader.readBytes ((content.drop offset).take n) with
    | some reader' =>
      refine ⟨⟨by omega, hle, fun heq => ?_⟩,
        fun hdelivers => absurd (of_decide_eq_true hdelivers) hne⟩
      omega
    | none => exact ⟨rfl, fun hdelivers => absurd (of_decide_eq_true hdelivers) hne⟩

/-- One read keeps what has been read in step with the file, and a run that will
read all the file on its way, unless the file does not parse. -/
theorem read_spec {content : List UInt8} {n offset : ℕ} {reader : LineReader} {cut : Option ℕ}
    (hn : n ≠ 0) (h : (Phase.reading offset reader cut).Sound content) :
    (read content n offset reader cut).Sound content ∧
    ((Phase.reading offset reader cut).delivers content.length = true →
      (read content n offset reader cut).delivers content.length = true ∨
        PerfMap.new content = none) := by
  have hoffset : offset ≤ content.length := by
    cases cut with
    | none => exact h.1
    | some cut => exact h.2.1
  by_cases hend : (content.drop offset).take n = []
  · exact read_end hend (hoffset.antisymm (length_le_of_read_eq_nil hn hend)) h
  · exact read_more hend h

/-! ### One step -/

/-- A run that looked at the file now would read it. -/
def due (s : Resolver) (file : PerfMapFile) : Bool := file.secs.any (· ≠ s.mtime)

/-- A run is on its way to a map of the whole file, or the file does not parse. -/
def Awaited (s : Resolver) : Prop :=
  (∃ r ∈ s.runs, r.phase.delivers s.content.length = true) ∨ PerfMap.new s.content = none

/-- The map of the whole file is installed or awaited. -/
def Delivered (s : Resolver) : Prop := s.Awaited ∨ s.size = some s.content.length

/-- A step of `init_resolver`: what it has read stays in step with the file, a run
on its way to the whole file stays so, recording `MTIME` sets out on that way, and
a run that has not looked at `MTIME` does so, unless it skips the file. -/
theorem initResolver_spec {s : Resolver} {n : ℕ} {p p' : Phase} {mtime : ℕ}
    (h : s.initResolver n p = some (p', mtime)) (hsound : p.Sound s.content) :
    p'.Sound s.content ∧
    (p.delivers s.content.length = true →
      p'.delivers s.content.length = true ∨ PerfMap.new s.content = none) ∧
    (p.records = true → p'.delivers s.content.length = true) ∧
    ∀ f, s.file = some f → p.early f.secs = true →
      p'.early f.secs = true ∨ p'.delivers s.content.length = true ∨
        p.skips s.mtime f.secs = true := by
  have hfalse : ∀ {P : Prop}, false = true → P := fun hf => absurd hf Bool.false_ne_true
  cases p with
  | started =>
    -- the file is opened, if it is there
    obtain ⟨rfl, rfl⟩ := Prod.mk.inj (Option.some.inj h)
    refine ⟨?_, hfalse, hfalse, fun f hf _ => ?_⟩
    · split <;> trivial
    · rw [hf]
      exact .inl rfl
  | opened =>
    -- its modification time is read; before 1970 the run ends here
    rw [initResolver] at h
    cases hsecs : s.file.bind PerfMapFile.secs with
    | none =>
      rw [hsecs] at h
      obtain ⟨rfl, rfl⟩ := Prod.mk.inj (Option.some.inj h)
      refine ⟨rfl, hfalse, hfalse, fun f hf _ => .inr (.inr ?_)⟩
      rw [hf, Option.bind_some] at hsecs
      rw [Phase.skips, hsecs]
      rfl
    | some secs =>
      rw [hsecs] at h
      obtain ⟨rfl, rfl⟩ := Prod.mk.inj (Option.some.inj h)
      refine ⟨trivial, hfalse, hfalse, fun f hf _ => .inl (decide_eq_true ?_)⟩
      rw [hf, Option.bind_some] at hsecs
      exact hsecs
  | dated secs =>
    -- it is compared with `MTIME`; if they are equal the run ends here
    obtain ⟨rfl, rfl⟩ := Prod.mk.inj (Option.some.inj h)
    refine ⟨?_, hfalse, hfalse, fun f hf hearly => ?_⟩
    · split <;> trivial
    · have hsecs : f.secs = some secs := of_decide_eq_true hearly
      by_cases heq : s.mtime = secs
      · refine .inr (.inr ?_)
        rw [Phase.skips, hsecs, heq]
        simp
      · rw [if_neg heq]
        exact .inr (.inl rfl)
  | changed secs =>
    -- it is recorded, and the file will be read from its start
    obtain ⟨rfl, rfl⟩ := Prod.mk.inj (Option.some.inj h)
    exact ⟨⟨Nat.zero_le _, rfl⟩, fun _ => .inl rfl, fun _ => rfl, fun _ _ _ => .inr (.inl rfl)⟩
  | reading offset reader cut =>
    -- one more piece of the file is read
    rw [initResolver] at h
    cases hfile : s.file with
    | none =>
      rw [hfile] at h
      cases h
    | some f =>
      rw [hfile] at h
      have hcontent : s.content = f.content := by rw [content, hfile, Option.elim_some]
      by_cases hn : n = 0
      · simp only [if_pos hn] at h
        cases h
      · simp only [if_neg hn] at h
        obtain ⟨rfl, rfl⟩ := Prod.mk.inj (Option.some.inj h)
        rw [hcontent] at hsound ⊢
        obtain ⟨hread, hdelivers⟩ := read_spec hn hsound
        exact ⟨hread, hdelivers, hfalse, fun _ _ hearly => hfalse hearly⟩
  | returned map size => cases h
  | finished => cases h

/-- The step of the run skips the file. -/
def skipsFile (s : Resolver) (i : ℕ) : Bool :=
  match s.runs[i]?, s.file with
  | some r, some f => r.phase.skips s.mtime f.secs
  | _, _ => false

/-- The step leaves no way to miss the end of the file: a run that skips the file
finds nothing appended since `MTIME` was recorded, but for what a run was on its
way to read, or the file does not parse; and a store over a map of the whole file
leaves one or finds another one awaited. -/
def Timely (s : Resolver) : Event → Prop
  | .advance i _ => s.skipsFile i = true → s.unread = false ∨ PerfMap.new s.content = none
  | .store _ => s.size = some s.content.length → s.Awaited
  | .append _ _ | .refresh | .force _ => True

instance (s : Resolver) : Decidable s.Awaited := inferInstanceAs (Decidable (_ ∨ _))

instance (s : Resolver) : ∀ e, Decidable (Timely s e)
  | .advance _ _ => inferInstanceAs (Decidable (_ → _))
  | .store _ => inferInstanceAs (Decidable (_ → _))
  | .append _ _ | .refresh | .force _ => inferInstanceAs (Decidable True)

/-- What holds after steps that are in time. -/
structure Consistent (s : Resolver) : Prop where
  sound : ∀ r ∈ s.runs, r.phase.Sound s.content
  size : ∀ n, s.size = some n → n ≤ s.content.length ∧
    ∃ m, s.installed = some (some m) ∧ PerfMap.new (s.content.take n) = some m
  current : s.file.isSome = true → s.unread = false → s.Delivered
  refreshed : s.refreshed = true → ∀ f, s.file = some f →
    s.Delivered ∨ ∃ r ∈ s.runs, r.phase.early f.secs = true

theorem consistent_new : new.Consistent where
  sound := fun _ hr => absurd hr List.not_mem_nil
  size := fun _ hn => by cases hn
  current := fun hf => absurd hf Bool.false_ne_true
  refreshed := fun hr => absurd hr Bool.false_ne_true

theorem Consistent.append {s : Resolver} (h : s.Consistent) (bytes : List UInt8)
    (now : SystemTime) :
    { s with
      file := some ⟨s.content ++ bytes, now⟩, refreshed := false
      unread := !s.runs.any fun r => r.phase.willRead }.Consistent where
  sound := fun r hr => (h.sound r hr).append bytes
  size := by
    intro n hn
    obtain ⟨hle, m, hm, hnew⟩ := h.size n hn
    refine ⟨?_, m, hm, ?_⟩
    · show n ≤ (s.content ++ bytes).length
      rw [List.length_append]
      omega
    · show PerfMap.new ((s.content ++ bytes).take n) = some m
      rw [List.take_append_of_le_length hle]
      exact hnew
  current := by
    intro _ hread
    -- the run that will read the file reads what is appended too
    have hany : (s.runs.any fun r => r.phase.willRead) = true := by simpa using hread
    obtain ⟨r, hr, hreads⟩ := List.any_eq_true.mp hany
    exact .inl (.inl ⟨r, hr, Phase.delivers_of_willRead hreads _⟩)
  refreshed := fun hr => absurd hr Bool.false_ne_true

/-- A run that starts changes nothing that is delivered. -/
theorem Delivered.start {s : Resolver} (h : s.Delivered) (r : Run) :
    { s with runs := s.runs ++ [r] }.Delivered := by
  obtain (⟨r', hr', hdelivers⟩ | hnone) | hsize := h
  · exact .inl (.inl ⟨r', List.mem_append_left _ hr', hdelivers⟩)
  · exact .inl (.inr hnone)
  · exact .inr hsize

theorem Consistent.start {s : Resolver} (h : s.Consistent) (lazy forced refreshed : Bool) :
    { s with
      forced := forced, runs := s.runs ++ [(⟨lazy, .started⟩ : Run)]
      refreshed := refreshed }.Consistent where
  sound := by
    intro r hr
    rcases List.mem_append.mp hr with hr | hr
    · exact h.sound r hr
    · rw [List.mem_singleton.mp hr]
      trivial
  size := h.size
  current := fun hf hread => (h.current hf hread).start _
  refreshed := fun _ _ _ =>
    .inr ⟨⟨lazy, .started⟩, List.mem_append_right _ (List.mem_singleton.mpr rfl), rfl⟩

/-- A file that `touch` makes is empty, and will be looked at. -/
theorem Consistent.touched {s : Resolver} (h : s.Consistent) (now : SystemTime)
    (hstarted : ∃ r ∈ s.runs, r.phase = .started) :
    { s with
      file := some (touch now s.file), unread := s.unread || s.file.isNone }.Consistent := by
  obtain ⟨file, mtime, installed, forced, runs, size, refreshed, unread⟩ := s
  cases file with
  | some f =>
    simp only [Option.isNone_some, Bool.or_false]
    exact h
  | none =>
    refine ⟨h.sound, h.size, fun _ hread => ?_, fun _ f _ => ?_⟩
    · simp at hread
    · obtain ⟨r, hr, hphase⟩ := hstarted
      refine .inr ⟨r, hr, ?_⟩
      rw [hphase]
      rfl

/-- An element that is replaced hands on what it had. -/
theorem exists_mem_set {α : Type*} {l : List α} {i : ℕ} {a b : α} (hi : l[i]? = some a)
    {P : α → Prop} {Q : Prop} (hab : P a → P b ∨ Q) (h : ∃ x ∈ l, P x) :
    (∃ x ∈ l.set i b, P x) ∨ Q := by
  obtain ⟨hlt, _⟩ := List.getElem?_eq_some_iff.mp hi
  obtain ⟨x, hx, hP⟩ := h
  obtain ⟨j, hj⟩ := List.getElem?_of_mem hx
  by_cases hij : i = j
  · subst hij
    obtain rfl := Option.some.inj (hi.symm.trans hj)
    exact (hab hP).imp (fun hP' => ⟨b, List.mem_set hlt b, hP'⟩) id
  · refine .inl ⟨x, List.mem_of_getElem? (i := j) ?_, hP⟩
    rw [List.getElem?_set_ne hij]
    exact hj

/-- A run goes on to the phase `p'`. -/
theorem Consistent.set {s : Resolver} (h : s.Consistent) {i : ℕ} {lazy : Bool} {p p' : Phase}
    {mtime : ℕ} {installed : Option (Option PerfMap)} {size : Option ℕ} {unread : Bool}
    (hi : s.runs[i]? = some ⟨lazy, p⟩) (hsound : p'.Sound s.content)
    (hsize : ∀ n, size = some n → n ≤ s.content.length ∧
      ∃ m, installed = some (some m) ∧ PerfMap.new (s.content.take n) = some m)
    (hdelivered : s.Delivered → { s with
      mtime := mtime, installed := installed, size := size, unread := unread
      runs := s.runs.set i ⟨lazy, p'⟩ }.Delivered)
    (hunread : unread = s.unread ∨ p'.delivers s.content.length = true)
    (hearly : ∀ f, s.file = some f → p.early f.secs = true →
      p'.early f.secs = true ∨ s.Delivered ∨ p'.delivers s.content.length = true) :
    { s with
      mtime := mtime, installed := installed, size := size, unread := unread
      runs := s.runs.set i ⟨lazy, p'⟩ }.Consistent := by
  obtain ⟨hlt, _⟩ := List.getElem?_eq_some_iff.mp hi
  refine ⟨fun r hr => ?_, hsize, fun hf hread => ?_, fun hr f hf => ?_⟩
  · rcases List.mem_or_eq_of_mem_set hr with hr | rfl
    · exact h.sound r hr
    · exact hsound
  · rcases hunread with rfl | hnow
    · exact hdelivered (h.current hf hread)
    · exact .inl (.inl ⟨⟨lazy, p'⟩, List.mem_set hlt _, hnow⟩)
  · -- the run that had met no end of the file is another one, or the one that moves
    rcases h.refreshed hr f hf with hold | hrun
    · exact .inl (hdelivered hold)
    · have hcase := exists_mem_set (b := ⟨lazy, p'⟩) hi (hearly f hf) hrun
      obtain hrun | hold | hnow := hcase
      · exact .inr hrun
      · exact .inl (hdelivered hold)
      · exact .inl (.inl (.inl ⟨⟨lazy, p'⟩, List.mem_set hlt _, hnow⟩))

/-- A step of `init_resolver` that misses nothing keeps the state consistent. -/
theorem Consistent.advance {s : Resolver} (h : s.Consistent) {i n : ℕ} {lazy : Bool}
    {p p' : Phase} {mtime : ℕ} (hi : s.runs[i]? = some ⟨lazy, p⟩)
    (hstep : s.initResolver n p = some (p', mtime)) (ht : s.Timely (.advance i n)) :
    { s with
      mtime := mtime, unread := s.unread && !p.records
      runs := s.runs.set i ⟨lazy, p'⟩ }.Consistent := by
  obtain ⟨hsound, hdelivers, hrecords, hearly⟩ :=
    initResolver_spec hstep (h.sound _ (List.mem_of_getElem? hi))
  refine h.set hi hsound h.size ?_ ?_ fun f hf hp => ?_
  · rintro ((hrun | hnone) | hsize)
    · exact .inl (exists_mem_set hi hdelivers hrun)
    · exact .inl (.inr hnone)
    · exact .inr hsize
  · cases hp : p.records with
    | true => exact .inr (hrecords hp)
    | false => exact .inl (Bool.and_true _)
  · obtain hp' | hnow | hskips := hearly f hf hp
    · exact .inl hp'
    · exact .inr (.inr hnow)
    · -- the run will not read the file, so nothing of it may be missing
      have hskipsFile : s.skipsFile i = true := by
        simp only [skipsFile, hi, hf]
        exact hskips
      obtain hread | hnone := ht hskipsFile
      · exact .inr (.inl (h.current (by rw [hf]; rfl) hread))
      · exact .inr (.inl (.inl (.inr hnone)))

/-- A refresh without a map ends. -/
theorem Consistent.finish {s : Resolver} (h : s.Consistent) {i : ℕ} {lazy : Bool}
    {size : Option ℕ} (hi : s.runs[i]? = some ⟨lazy, .returned none size⟩) :
    { s with runs := s.runs.set i ⟨lazy, .finished⟩ }.Consistent := by
  refine h.set hi trivial h.size ?_ (.inl rfl) fun _ _ hp => absurd hp Bool.false_ne_true
  rintro ((hrun | hnone) | hsize)
  · refine .inl (exists_mem_set hi (fun hdelivers => ?_) hrun)
    exact absurd hdelivers Bool.false_ne_true
  · exact .inl (.inr hnone)
  · exact .inr hsize

/-- A store in time. -/
theorem Consistent.store {s : Resolver} (h : s.Consistent) {i : ℕ} {lazy : Bool}
    {map : Option PerfMap} {size : Option ℕ} (hi : s.runs[i]? = some ⟨lazy, .returned map size⟩)
    (ht : s.Timely (.store i)) :
    { s with
      installed := some map, size := size
      runs := s.runs.set i ⟨lazy, .finished⟩ }.Consistent := by
  have hsound : (Phase.returned map size).Sound s.content :=
    h.sound _ (List.mem_of_getElem? hi)
  refine h.set hi trivial (fun n hn => ?_) (fun hold => ?_) (.inl rfl)
    fun _ _ hp => absurd hp Bool.false_ne_true
  · subst hn
    cases map with
    | none => cases hsound
    | some m => exact ⟨hsound.1, m, rfl, hsound.2⟩
  · -- what the store replaces is awaited from another run, if not from this one
    obtain hrun | hnone := hold.elim id ht
    · have hcase := exists_mem_set (b := ⟨lazy, .finished⟩)
        (Q := size = some s.content.length) hi (fun hdelivers => ?_) hrun
      · exact hcase.imp .inl id
      · cases map with
        | none => exact absurd hdelivers Bool.false_ne_true
        | some map => exact .inr (of_decide_eq_true hdelivers)
    · exact .inl (.inr hnone)

theorem Consistent.step {s s' : Resolver} {e : Event} (h : s.Consistent) (ht : s.Timely e)
    (hstep : Resolver.step s e = some s') : s'.Consistent := by
  cases e with
  | append bytes now =>
    obtain rfl := Option.some.inj hstep
    exact h.append bytes now
  | refresh =>
    obtain rfl := Option.some.inj hstep
    exact h.start false s.forced true
  | force now =>
    rw [Resolver.step] at hstep
    split at hstep
    · cases hstep
    · obtain rfl := Option.some.inj hstep
      -- the run that makes `RESOLVER` starts after `touch`
      refine (h.start true true s.refreshed).touched now ⟨⟨true, .started⟩, ?_, rfl⟩
      exact List.mem_append_right _ (List.mem_singleton.mpr rfl)
  | advance i n =>
    rw [Resolver.step] at hstep
    split at hstep
    · cases hstep
    · rename_i hi
      obtain rfl := Option.some.inj hstep
      -- a refresh that returned nothing ends
      exact h.finish hi
    · rename_i lazy p _ hi
      cases hnext : s.initResolver n p with
      | none =>
        rw [hnext] at hstep
        cases hstep
      | some next =>
        rw [hnext] at hstep
        obtain rfl := Option.some.inj hstep
        exact h.advance hi hnext ht
  | store i =>
    rw [Resolver.step] at hstep
    split at hstep
    · rename_i hi
      obtain rfl := Option.some.inj hstep
      exact h.store hi ht
    · rename_i hi
      split at hstep
      · obtain rfl := Option.some.inj hstep
        exact h.store hi ht
      · cases hstep
    · cases hstep

/-- In a consistent state without a run that has not finished, a file that was
looked at is installed. -/
theorem Consistent.caughtUp {s : Resolver} (h : s.Consistent) : s.CaughtUp := by
  intro hfinished hrefreshed f hf m hm
  have hcontent : s.content = f.content := by rw [content, hf, Option.elim_some]
  obtain ((⟨r, hr, hdelivers⟩ | hnone) | hsize) | ⟨r, hr, hearly⟩ := h.refreshed hrefreshed f hf
  · rw [hfinished r hr] at hdelivers
    cases hdelivers
  · rw [hcontent, hm] at hnone
    cases hnone
  · obtain ⟨_, m', hinstalled, hnew⟩ := h.size _ hsize
    rw [List.take_length, hcontent, hm] at hnew
    rw [hinstalled, Option.some.inj hnew]
  · rw [hfinished r hr] at hearly
    cases hearly

/-- **The resolver catches up with the file.**  In every run whose steps are in
time, whenever all refreshes have finished and one has started since the last
append, the installed resolver is the map of the file, if it parses.  The
condition is sufficient and not necessary: a run that skips the file may be
followed by one that does not. -/
theorem catches_up {s : Resolver} {es : List Event} (hrun : run step new es = some s)
    (htimely : Along step Timely new es) : s.CaughtUp :=
  (run_invariant_along (fun _ _ _ h ht hstep => Consistent.step h ht hstep) consistent_new
    htimely hrun).caughtUp

/-! ### A file that is not looked at again -/

/-- `MTIME` records the second of the file, and no run is left to read it. -/
structure Unseen (s : Resolver) (f : PerfMapFile) : Prop where
  file : s.file = some f
  forced : s.forced = true
  due : s.due f = false
  runs : ∀ r ∈ s.runs, r.phase = .finished ∨
    r.lazy = false ∧ (r.phase.early f.secs = true ∨ ∃ size, r.phase = .returned none size)

/-- A run that finds its second recorded reads nothing. -/
theorem Unseen.initResolver {s : Resolver} {f : PerfMapFile} (h : s.Unseen f) {n : ℕ}
    {p p' : Phase} {mtime : ℕ} (hp : p.early f.secs = true)
    (hstep : s.initResolver n p = some (p', mtime)) :
    mtime = s.mtime ∧ (p'.early f.secs = true ∨ ∃ size, p' = .returned none size) := by
  cases p with
  | started =>
    obtain ⟨rfl, rfl⟩ := Prod.mk.inj (Option.some.inj hstep)
    rw [h.file]
    exact ⟨rfl, .inl rfl⟩
  | opened =>
    rw [Resolver.initResolver, h.file, Option.bind_some] at hstep
    cases hsecs : f.secs with
    | none =>
      rw [hsecs] at hstep
      obtain ⟨rfl, rfl⟩ := Prod.mk.inj (Option.some.inj hstep)
      exact ⟨rfl, .inr ⟨none, rfl⟩⟩
    | some secs =>
      rw [hsecs] at hstep
      obtain ⟨rfl, rfl⟩ := Prod.mk.inj (Option.some.inj hstep)
      exact ⟨rfl, .inl (decide_eq_true rfl)⟩
  | dated secs =>
    obtain ⟨rfl, rfl⟩ := Prod.mk.inj (Option.some.inj hstep)
    have hsecs : f.secs = some secs := of_decide_eq_true hp
    -- the second recorded in MTIME is that of the file, so the run turns back
    have hdue := h.due
    rw [Resolver.due, hsecs, Option.any_some, decide_eq_false_iff_not, not_not] at hdue
    rw [if_pos hdue.symm]
    exact ⟨rfl, .inr ⟨none, rfl⟩⟩
  | _ => cases hp

/-- A step that appends nothing installs nothing. -/
theorem Unseen.step {s s' : Resolver} {f : PerfMapFile} {e : Event} (h : s.Unseen f)
    (he : ∀ bytes now, e ≠ .append bytes now) (hstep : Resolver.step s e = some s') :
    s'.Unseen f ∧ s'.installed = s.installed := by
  cases e with
  | append bytes now => exact absurd rfl (he bytes now)
  | refresh =>
    obtain rfl := Option.some.inj hstep
    refine ⟨⟨h.file, h.forced, h.due, fun r hr => ?_⟩, rfl⟩
    rcases List.mem_append.mp hr with hr | hr
    · exact h.runs r hr
    · rw [List.mem_singleton.mp hr]
      exact .inr ⟨rfl, .inl rfl⟩
  | force now =>
    rw [Resolver.step, if_pos h.forced] at hstep
    cases hstep
  | advance i n =>
    rw [Resolver.step] at hstep
    split at hstep
    · cases hstep
    · obtain rfl := Option.some.inj hstep
      refine ⟨⟨h.file, h.forced, h.due, fun r hr => ?_⟩, rfl⟩
      rcases List.mem_or_eq_of_mem_set hr with hr | rfl
      · exact h.runs r hr
      · exact .inl rfl
    · rename_i lazy p hreturned hi
      cases hnext : s.initResolver n p with
      | none =>
        rw [hnext] at hstep
        cases hstep
      | some next =>
        obtain ⟨p', mtime⟩ := next
        rw [hnext] at hstep
        obtain rfl := Option.some.inj hstep
        -- only a refresh that has not looked at `MTIME` can go on
        obtain rfl | ⟨hlazy, hearly | ⟨size, rfl⟩⟩ := h.runs _ (List.mem_of_getElem? hi)
        · cases hnext
        · obtain ⟨rfl, hp'⟩ := h.initResolver hearly hnext
          refine ⟨⟨h.file, h.forced, h.due, fun r hr => ?_⟩, rfl⟩
          rcases List.mem_or_eq_of_mem_set hr with hr | rfl
          · exact h.runs r hr
          · exact .inr ⟨hlazy, hp'⟩
        · cases hnext
  | store i =>
    rw [Resolver.step] at hstep
    split at hstep
    · rename_i hi
      obtain hfinished | ⟨hlazy, _⟩ := h.runs _ (List.mem_of_getElem? hi)
      · cases hfinished
      · cases hlazy
    · rename_i hi
      obtain hfinished | ⟨_, hearly | ⟨_, hnone⟩⟩ := h.runs _ (List.mem_of_getElem? hi)
      · cases hfinished
      · cases hearly
      · cases hnone
    · cases hstep

/-- Bytes that were appended in the second that `MTIME` records, with no run left
to read them, are not installed before the next append, whatever refreshes. -/
theorem unseen_of_run {s t : Resolver} {f : PerfMapFile} (h : s.Unseen f) {es : List Event}
    (hes : ∀ e ∈ es, ∀ bytes now, e ≠ .append bytes now) (hrun : run step s es = some t) :
    t.installed = s.installed := by
  have hsteps : ∀ (s' : Resolver) e s'', s'.Unseen f ∧ s'.installed = s.installed →
      (∀ bytes now, e ≠ .append bytes now) → Resolver.step s' e = some s'' →
      s''.Unseen f ∧ s''.installed = s.installed := by
    intro s' e s'' ⟨hs', hsame⟩ he hstep
    obtain ⟨hs'', hstill⟩ := hs'.step he hstep
    exact ⟨hs'', hstill.trans hsame⟩
  exact (run_invariant_along hsteps ⟨h, rfl⟩ (along_of_forall (fun e he _ => hes e he) s) hrun).2

end Resolver

end Pprof

namespace Pprof.Given

/-- The line `10 8 f`. -/
def firstLine : List UInt8 := [0x31, 0x30, 0x20, 0x38, 0x20, 0x66, 0x0A]

/-- The line `20 8 g`. -/
def secondLine : List UInt8 := [0x32, 0x30, 0x20, 0x38, 0x20, 0x67, 0x0A]

open Resolver

/-- The first call of `get_resolver`, after the first append: it makes `RESOLVER`,
and the refresh that it has started finds nothing new. -/
def firstCall : List Event :=
  [.append firstLine 1700000000100000000, .refresh, .force 1700000000200000000] ++
    List.replicate 6 (.advance 1 8192) ++ [.store 1] ++ List.replicate 4 (.advance 0 8192)

/-- A refresh after an append in the next second. -/
def nextSecond : List Event :=
  [.append secondLine 1700000001000000000, .refresh] ++ List.replicate 6 (.advance 2 8192) ++
    [.store 2]

/-- A refresh after an append in the same second. -/
def sameSecond : List Event :=
  [.append secondLine 1700000000900000000, .refresh] ++ List.replicate 4 (.advance 2 8192)

end Pprof.Given

namespace Pprof.Resolver

open Given

/-- The refresh after an append in the next second installs both lines. -/
theorem catches_up_next_second : ∃ s, run step new (firstCall ++ nextSecond) = some s ∧
    s.installed = some (some ⟨[(0x10, 0x18, "f"), (0x20, 0x28, "g")]⟩) ∧ s.CaughtUp := by
  have hinstalled : (run step new (firstCall ++ nextSecond)).map Resolver.installed
      = some (some (some ⟨[(0x10, 0x18, "f"), (0x20, 0x28, "g")]⟩)) := by decide +kernel
  obtain ⟨s, hrun, hs⟩ := Option.map_eq_some_iff.mp hinstalled
  exact ⟨s, hrun, hs, catches_up hrun (by decide +kernel)⟩

/-- The refresh after an append in the same second installs nothing. -/
theorem not_catches_up_same_second : ∃ s, run step new (firstCall ++ sameSecond) = some s ∧
    s.installed = some (some ⟨[(0x10, 0x18, "f")]⟩) ∧ ¬ s.CaughtUp := by
  -- all three runs have finished, and the map installed has the first line only
  have hsees : (run step new (firstCall ++ sameSecond)).map (fun s =>
      (s.runs.map Run.phase, s.refreshed, s.file, s.installed))
        = some ([.finished, .finished, .finished], true,
          some ⟨firstLine ++ secondLine, 1700000000900000000⟩,
          some (some ⟨[(0x10, 0x18, "f")]⟩)) := by decide +kernel
  have hnew : PerfMap.new (firstLine ++ secondLine)
      = some ⟨[(0x10, 0x18, "f"), (0x20, 0x28, "g")]⟩ := by decide +kernel
  obtain ⟨s, hrun, hs⟩ := Option.map_eq_some_iff.mp hsees
  obtain ⟨hphases, hrefreshed, hfile, hinstalled⟩ := by simpa only [Prod.mk.injEq] using hs
  refine ⟨s, hrun, hinstalled, fun hcaught => ?_⟩
  have hfinished : ∀ r ∈ s.runs, r.phase = .finished := by
    intro r hr
    have hmem : r.phase ∈ s.runs.map Run.phase := List.mem_map_of_mem hr
    rw [hphases] at hmem
    simpa using hmem
  have hstale := hcaught hfinished hrefreshed _ hfile _ hnew
  rw [hinstalled] at hstale
  revert hstale
  decide

end Pprof.Resolver
