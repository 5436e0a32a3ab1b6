/-
The collector: a hash counter with an overflow array behind it.

`Collector` follows `collector.rs`: entries that the hash counter evicts are
pushed into the overflow array, and `try_iter` yields the entries of both.  A
key may be in its bucket, in the buffer and in the file at the same time.

`Holds c es` says that the collector holds the entries `es` and is fit to go
on: every operation is specified by what it does to `es` (`Holds.add_perm`,
`clear_holds`, `Holds.tryIter`).  The purpose of the collector is stated by
the journal of a sequence of calls (`sinceClear`: what was added since the
last clear), and `Collector.counts_conserved` says that the collector is the
journal up to the splitting of counts.
-/
import Pprof.Transition
import Pprof.HashCounter
import Pprof.TempFdArray

open ByteFile Weight Wrapping Transition
open scoped List

namespace Pprof

/-- An entry is its item and then its count. -/
instance layoutEntry {K : Type*} [PlainLayout K UInt8] : PlainLayout (Entry K) UInt8 where
  size := Layout.size K UInt8 + Layout.size UInt64 UInt8
  size_pos := Nat.add_pos_left Layout.size_pos _
  image e := Layout.image e.item ++ Layout.image e.isize.toUInt64
  read bs := ⟨Layout.read (bs.take (Layout.size K UInt8)),
    (Layout.read (bs.drop (Layout.size K UInt8)) : UInt64).toInt64⟩
  zero := 0
  length_image e := by rw [List.length_append, Layout.length_image, Layout.length_image]
  read_image e := by
    have hitem : (Layout.image e.item : List UInt8).length = Layout.size K UInt8 :=
      Layout.length_image e.item
    rw [List.take_left' hitem, List.drop_left' hitem, PlainLayout.read_image,
      PlainLayout.read_image]
    rfl

/-- The sum of the counts of the entries of the key `k`. -/
abbrev countOf {K : Type*} [BEq K] (k : K) (es : List (Entry K)) : ℤ :=
  weight Entry.item Entry.count k es

variable [Target]

/-- `Collector`. -/
structure Collector (K B : Type*) where
  map : HashCounter K
  tempArray : TempFdArray (Entry K) B

namespace Collector

variable {K B : Type*} [Layout (Entry K) B]

omit [Layout (Entry K) B] in
/-- `Collector::new`; the temporary file may not be created. -/
def new [Inhabited K] (tempfile : Bool) : Except IoError (Collector K B) :=
  match TempFdArray.new tempfile with
  | .ok tempArray => .ok ⟨HashCounter.new, tempArray⟩
  | .error err => .error err

/-- `Collector::clear`. -/
def clear (io : Io) (c : Collector K B) : Except IoError Unit × Collector K B :=
  let temp := c.tempArray.clear io
  (temp.1, ⟨c.map.clear, temp.2⟩)

/-- `Collector::add`. -/
def add [BEq K] [Hashable K] (io : Io) (c : Collector K B) (key : K) (count : Int64) :
    Except IoError Unit × Collector K B :=
  let counted := c.map.add key count
  match counted.1 with
  | some evict =>
    -- the key is counted before its victim is known to be safe
    let pushed := c.tempArray.push io evict
    (pushed.1, ⟨counted.2, pushed.2⟩)
  | none => (.ok (), ⟨counted.2, c.tempArray⟩)

/-- `Collector::try_iter`: the entries the iterator yields. -/
def tryIter (io : Io) (c : Collector K B) : Except IoError (List (Entry K)) :=
  match c.tempArray.tryIter io with
  | .ok es => .ok (c.map.iter ++ es)
  | .error err => .error err

/-- Reading back succeeds exactly when its operations do and the overflow file
is long enough. -/
theorem tryIter_eq_ok {io : Io} {c : Collector K B} {es : List (Entry K)} :
    c.tryIter io = .ok es ↔
      io.readsOk ∧ c.tempArray.needed ≤ c.tempArray.file.contents.length ∧
        es = c.map.iter ++ (c.tempArray.buffered ++
          readList (Entry K) (c.tempArray.file.contents.take c.tempArray.needed)) := by
  unfold tryIter
  cases h : c.tempArray.tryIter io with
  | ok ts =>
    obtain ⟨h₁, h₂, hts⟩ := TempFdArray.tryIter_eq_ok.mp h
    rw [← hts, Except.ok.injEq]
    exact ⟨fun h' => ⟨h₁, h₂, h'.symm⟩, fun h' => h'.2.2.symm⟩
  | error err =>
    constructor
    · intro h'
      cases h'
    · intro h'
      rw [TempFdArray.tryIter_eq_ok.mpr ⟨h'.1, h'.2.1, rfl⟩] at h
      cases h

/-- The collector has no entries, in any of its layers. -/
def Blank (c : Collector K B) : Prop :=
  (∀ i, (c.map.buckets i).length = 0) ∧ c.tempArray.bufferIndex = 0 ∧ c.tempArray.flushN = 0

theorem tryIter_eq_nil {io : Io} {c : Collector K B} :
    c.tryIter io = .ok [] ↔
      io.readsOk ∧ c.tempArray.needed ≤ c.tempArray.file.contents.length ∧ c.Blank := by
  have hbuf : c.tempArray.buffered = [] ↔ c.tempArray.bufferIndex = 0 := by
    have hle := c.tempArray.bufferIndex_le
    have hlen := c.tempArray.buffer_length
    rw [← List.length_eq_zero_iff, TempFdArray.buffered, List.length_take]
    omega
  rw [tryIter_eq_ok]
  constructor
  · rintro ⟨hio, hneeded, hnil⟩
    obtain ⟨hmap, hrest⟩ := List.append_eq_nil_iff.mp hnil.symm
    obtain ⟨hbuffered, hfile⟩ := List.append_eq_nil_iff.mp hrest
    -- the file yields one entry for each slot that was flushed
    have hlen : (readList (Entry K) (c.tempArray.file.contents.take c.tempArray.needed)).length
        = BUFFER_LENGTH * c.tempArray.flushN := by
      rw [length_readList, List.length_take, Nat.min_eq_left hneeded, TempFdArray.needed,
        Nat.mul_div_cancel _ (Layout.size_pos)]
    rw [hfile, List.length_nil] at hlen
    have hflush := (Nat.mul_eq_zero.mp hlen.symm).resolve_left BUFFER_LENGTH_pos.ne'
    exact ⟨hio, hneeded, HashCounter.iter_eq_nil.mp hmap, hbuf.mp hbuffered, hflush⟩
  · rintro ⟨hio, hneeded, hmap, hindex, hflush⟩
    refine ⟨hio, hneeded, ?_⟩
    have hzero : c.tempArray.needed = 0 := by
      rw [TempFdArray.needed, hflush, Nat.mul_zero, Nat.zero_mul]
    rw [HashCounter.iter_eq_nil.mpr hmap, hbuf.mpr hindex, hzero, List.take_zero,
      List.nil_append, List.nil_append, readList, List.length_nil, Nat.zero_div, readArray]

theorem Blank.tryIter {c : Collector K B} (h : c.Blank) : c.tryIter Io.ok = .ok [] := by
  refine tryIter_eq_nil.mpr ⟨rfl, ?_, h⟩
  rw [TempFdArray.needed, h.2.2, Nat.mul_zero, Nat.zero_mul]
  exact Nat.zero_le _

/-- A clear forgets all entries before it touches the file. -/
theorem blank_clear (io : Io) (c : Collector K B) : (c.clear io).2.Blank :=
  ⟨fun _ => rfl, TempFdArray.clear_rewinds io c.tempArray⟩

variable [BEq K]

/-- The collector holds the entries `es`, and no file operation has gone wrong
that a later one would notice. -/
def Holds (c : Collector K B) (es : List (Entry K)) : Prop :=
  c.map.Distinct ∧ ∃ fl, c.tempArray.Stores fl ∧ es = c.map.iter ++ (c.tempArray.buffered ++ fl)

theorem holds_of_new [Inhabited K] {tempfile : Bool} {c : Collector K B}
    (h : new tempfile = .ok c) : c.Holds [] := by
  cases tempfile with
  | false => cases h
  | true =>
    obtain rfl := Except.ok.inj h
    refine ⟨HashCounter.distinct_of_iter_eq_nil HashCounter.iter_new, [],
      ⟨rfl, rfl, rfl⟩, ?_⟩
    rw [HashCounter.iter_new]
    rfl

theorem Holds.tryIter {K B : Type*} [PlainLayout (Entry K) B] [BEq K] {c : Collector K B}
    {es : List (Entry K)} (h : c.Holds es) {io : Io} (hio : io.readsOk) :
    c.tryIter io = .ok es := by
  obtain ⟨_, fl, hst, hes⟩ := h
  rw [Collector.tryIter, hst.tryIter hio, hes]

theorem clear_holds (c : Collector K B) (io : Io) (hio : io.clearsOk) :
    (c.clear io).1 = .ok () ∧ (c.clear io).2.Holds [] := by
  obtain ⟨hok, hst, hbuf⟩ := TempFdArray.clear_stores c.tempArray hio
  have hmap : (c.clear io).2.map.iter = [] := HashCounter.iter_clear c.map
  refine ⟨hok, HashCounter.distinct_of_iter_eq_nil hmap, [], hst, ?_⟩
  rw [hmap]
  exact (congrArg (· ++ []) hbuf).symm

variable [Hashable K]

/-- Adding `count` to the live entry of `key` stays an `isize`. -/
def AddFits (c : Collector K B) (key : K) (count : Int64) : Prop := c.map.AddFits key count

instance (c : Collector K B) (key : K) (count : Int64) : Decidable (c.AddFits key count) :=
  inferInstanceAs (Decidable (c.map.AddFits key count))

/-- If no entry overflows, neither does the live one of the key. -/
theorem Holds.addFits {c : Collector K B} {es : List (Entry K)} (h : c.Holds es) {count : Int64}
    (hfits : ∀ e ∈ es, InRange 64 (e.count + count.toInt)) (key : K) : c.AddFits key count := by
  obtain ⟨_, fl, _, hes⟩ := h
  intro e he _
  refine hfits e ?_
  rw [hes]
  exact List.mem_append_left _ (HashCounter.mem_iter.mpr ⟨_, he⟩)

/-- Adding adds to the live entry of the key, or makes one. -/
theorem Holds.add_perm [EquivBEq K] {c : Collector K B} {es : List (Entry K)} (h : c.Holds es)
    (io : Io) (hio : io.write.fits (BUFFER_LENGTH * Layout.size (Entry K) B)) (key : K)
    (count : Int64) :
    (c.add io key count).1 = .ok () ∧ ∃ es', (c.add io key count).2.Holds es' ∧
      (∀ e, c.map.live key = some e → ∃ rest, es ~ e :: rest ∧ es' ~ e.increase count :: rest) ∧
      (c.map.live key = none → es' ~ ⟨key, count⟩ :: es) := by
  obtain ⟨hd, fl, hst, hes⟩ := h
  subst hes
  have hd' := HashCounter.distinct_add hd key count
  cases hev : (c.map.add key count).1 with
  | none =>
    -- the counter has room: the overflow array is untouched
    have hadd : c.add io key count = (.ok (), ⟨(c.map.add key count).2, c.tempArray⟩) := by
      simp [Collector.add, hev]
    rw [hadd]
    refine ⟨rfl, _, ⟨hd', fl, hst, rfl⟩, fun e he => ?_, fun hmiss => ?_⟩
    · obtain ⟨_, rest, hbefore, hafter⟩ := HashCounter.add_hit hd count he
      exact ⟨rest ++ _, hbefore.append_right _, hafter.append_right _⟩
    · have hnew := HashCounter.add_miss count hmiss
      rw [hev, Option.toList_none, List.append_nil] at hnew
      exact hnew.append_right _
  | some evict =>
    obtain ⟨hok, fl', hst', hperm⟩ := hst.push hio evict
    have hadd : c.add io key count
        = (.ok (), ⟨(c.map.add key count).2, (c.tempArray.push io evict).2⟩) := by
      simp [Collector.add, hev, hok]
    rw [hadd]
    refine ⟨rfl, _, ⟨hd', fl', hst', rfl⟩, fun e he => ?_, fun hmiss => ?_⟩
    · obtain ⟨hnone, _⟩ := HashCounter.add_hit hd count he
      rw [hev] at hnone
      cases hnone
    · have hnew := HashCounter.add_miss count hmiss
      rw [hev, Option.toList_some] at hnew
      calc (c.map.add key count).2.iter ++ ((c.tempArray.push io evict).2.buffered ++ fl')
          ~ (c.map.add key count).2.iter ++ evict :: (c.tempArray.buffered ++ fl) :=
            hperm.append_left _
        _ = ((c.map.add key count).2.iter ++ [evict]) ++ (c.tempArray.buffered ++ fl) := by
            rw [List.append_assoc, List.singleton_append]
        _ ~ ⟨key, count⟩ :: c.map.iter ++ (c.tempArray.buffered ++ fl) := hnew.append_right _

/-- So adding also moves no count from one key to another, and keeps what holds
of every entry. -/
theorem Holds.add [EquivBEq K] {c : Collector K B} {es : List (Entry K)} (h : c.Holds es) (io : Io)
    (hio : io.write.fits (BUFFER_LENGTH * Layout.size (Entry K) B)) {key : K} {count : Int64}
    (hfits : c.AddFits key count) :
    (c.add io key count).1 = .ok () ∧ ∃ es', (c.add io key count).2.Holds es' ∧
      (∀ e, c.map.live key = some e → ∃ rest, es ~ e :: rest ∧ es' ~ e.increase count :: rest) ∧
      (c.map.live key = none → es' ~ ⟨key, count⟩ :: es) ∧
      (∀ k, countOf k es' = countOf k (⟨key, count⟩ :: es)) ∧
      ∀ P : Entry K → Prop, (∀ e ∈ es, P e) →
        (∀ e ∈ es, e.item == key → P (e.increase count)) → P ⟨key, count⟩ → ∀ e ∈ es', P e := by
  obtain ⟨hok, es', hes', hhit, hmiss⟩ := h.add_perm io hio key count
  refine ⟨hok, es', hes', hhit, hmiss, ?_⟩
  cases hlive : c.map.live key with
  | none =>
    -- the stack was not counted: its entry is new
    have hperm := hmiss hlive
    refine ⟨fun k => weight_perm hperm, fun P hold _ hnew e he => ?_⟩
    rcases List.mem_cons.mp (hperm.mem_iff.mp he) with rfl | he
    · exact hnew
    · exact hold e he
  | some live =>
    -- its live entry counts it
    obtain ⟨rest, hbefore, hafter⟩ := hhit live hlive
    obtain ⟨hmem, hkey⟩ := HashCounter.live_eq_some hlive
    have hnew : (⟨key, count⟩ : Entry K).count = count.toInt := rfl
    have hcount : (live.increase count).count = live.count + count.toInt :=
      Entry.count_increase_of_inRange (hfits live hmem hkey)
    refine ⟨fun k => ?_, fun P hold hincrease _ e he => ?_⟩
    · have hk : (key == k) = (live.item == k) := (BEq.congr_left hkey).symm
      have hitem : (live.increase count).item = live.item := rfl
      rw [countOf, countOf, weight_perm hafter, weight_cons, weight_cons, weight_perm hbefore,
        weight_cons, hk, hitem, hcount, hnew]
      by_cases hlk : live.item == k
      · rw [if_pos hlk, if_pos hlk, if_pos hlk]
        ring
      · rw [if_neg hlk, if_neg hlk, if_neg hlk]
        ring
    · have hin : live ∈ es := hbefore.mem_iff.mpr List.mem_cons_self
      rcases List.mem_cons.mp (hafter.mem_iff.mp he) with rfl | he
      · exact hincrease live hin hkey
      · exact hold e (hbefore.mem_iff.mpr (List.mem_cons_of_mem _ he))

/-- An entry is evicted, and the write it leads to fails. -/
def writeFails (io : Io) (c : Collector K B) (key : K) (count : Int64) : Bool :=
  (c.map.add key count).1.isSome && c.tempArray.writeFails io

/-- An add whose write does not fail. -/
theorem add_eq_ok {c : Collector K B} {io : Io} {key : K} {count : Int64}
    (h : c.writeFails io key count = false) : c.add io key count = c.add Io.ok key count := by
  cases hev : (c.map.add key count).1 with
  | none => simp only [add, hev]
  | some evict =>
    rw [writeFails, hev, Option.isSome_some, Bool.true_and] at h
    simp only [add, hev, TempFdArray.push_eq_ok h]

/-- `TempFdArray.push_lag` for the collector: only a failed write leaves the
file further behind. -/
theorem add_lag {c : Collector K B} (h : c.tempArray.file.AtEnd) (io : Io) (key : K)
    (count : Int64) :
    (c.add io key count).2.tempArray.file.AtEnd ∧
    (c.writeFails io key count = false →
      (c.add io key count).2.tempArray.needed + c.tempArray.file.contents.length
        = c.tempArray.needed + (c.add io key count).2.tempArray.file.contents.length) ∧
    (c.writeFails io key count = true →
      c.tempArray.needed + (c.add io key count).2.tempArray.file.contents.length
        < (c.add io key count).2.tempArray.needed + c.tempArray.file.contents.length) := by
  cases hev : (c.map.add key count).1 with
  | none =>
    have hadd : (c.add io key count).2.tempArray = c.tempArray := by simp [add, hev]
    have hfails : c.writeFails io key count = false := by simp [writeFails, hev]
    rw [hadd, hfails]
    refine ⟨h, fun _ => rfl, ?_⟩
    intro hf
    cases hf
  | some evict =>
    have hadd : (c.add io key count).2.tempArray = (c.tempArray.push io evict).2 := by
      simp [add, hev]
    have hfails : c.writeFails io key count = c.tempArray.writeFails io := by
      simp [writeFails, hev]
    rw [hadd, hfails]
    exact TempFdArray.push_lag h io evict

end Collector

/-! ### Sequences of calls -/

namespace Collector

/-- A call that changes the collector. -/
inductive Op (K : Type*) where
  | add (key : K) (count : Int64)
  | clear
  deriving DecidableEq

variable {K B : Type*}

/-- What was added since the last clear. -/
def journal : List (Entry K) → Op K → List (Entry K)
  | es, .add key count => ⟨key, count⟩ :: es
  | _, .clear => []

/-- What a sequence of calls added since its last clear. -/
def sinceClear (ops : List (Op K)) : List (Entry K) := ops.foldl journal []

variable [Layout (Entry K) B] [BEq K] [Hashable K]

/-- A call whose file operations succeed, where it returns `Ok`. -/
def step (c : Collector K B) : Op K → Option (Collector K B)
  | .add key count =>
    match c.add Io.ok key count with
    | (.ok (), c') => some c'
    | (.error _, _) => none
  | .clear =>
    match c.clear Io.ok with
    | (.ok (), c') => some c'
    | (.error _, _) => none

/-- The call adds no two counts whose sum is not an `isize`. -/
def Op.Fits (c : Collector K B) : Op K → Prop
  | .add key count => c.AddFits key count
  | .clear => True

instance (c : Collector K B) : ∀ op : Op K, Decidable (op.Fits c)
  | .add key count => inferInstanceAs (Decidable (c.AddFits key count))
  | .clear => inferInstanceAs (Decidable True)

/-- The collector holds the counts of the journal `j`, for keys of `j` only. -/
def Follows (c : Collector K B) (j : List (Entry K)) : Prop :=
  ∃ es, c.Holds es ∧ (∀ k, countOf k es = countOf k j) ∧ ∀ e ∈ es, ∃ x ∈ j, x.item == e.item

/-- One call keeps the collector in step with the journal. -/
theorem Follows.step [EquivBEq K] {c : Collector K B} {j : List (Entry K)} (h : c.Follows j)
    {op : Op K} (hfits : op.Fits c) :
    ∃ c', Collector.step c op = some c' ∧ c'.Follows (journal j op) := by
  obtain ⟨es, hes, hcount, hkeys⟩ := h
  cases op with
  | add key count =>
    -- the collector and the journal both gain the count for the key
    obtain ⟨hok, es', hes', _, _, hcount', hforall⟩ := hes.add Io.ok rfl hfits
    refine ⟨(c.add Io.ok key count).2, ?_, es', hes', fun k => ?_, ?_⟩
    · have hadd : c.add Io.ok key count = (.ok (), _) := Prod.ext hok rfl
      rw [Collector.step, hadd]
    · simp only [hcount', journal, weight_cons, hcount k]
    · have hold : ∀ e ∈ es, ∃ x ∈ journal j (.add key count), x.item == e.item := fun e he => by
        obtain ⟨x, hx, hxe⟩ := hkeys e he
        exact ⟨x, List.mem_cons_of_mem _ hx, hxe⟩
      exact hforall _ hold (fun e he _ => hold e he) ⟨_, List.mem_cons_self, BEq.rfl⟩
  | clear =>
    obtain ⟨hok, hes'⟩ := clear_holds c Io.ok rfl
    refine ⟨(c.clear Io.ok).2, ?_, [], hes', fun k => rfl, fun e he => absurd he List.not_mem_nil⟩
    have hclear : c.clear Io.ok = (.ok (), _) := Prod.ext hok rfl
    rw [Collector.step, hclear]

end Collector

namespace Collector

variable {K B : Type*} [PlainLayout (Entry K) B] [BEq K] [Hashable K]

/-- **The collector conserves counts.**  After any sequence of calls without
I/O failure and without overflow, the counts that `try_iter` yields for a key
add up to what was added for it since the last clear, and a key that was not
added since is not yielded; if all there is of a key is in its bytes. -/
theorem counts_conserved [EquivBEq K] [Inhabited K] {c₀ : Collector K B}
    (hnew : new true = .ok c₀) {ops : List (Op K)}
    (hfits : Along step (fun c op => op.Fits c) c₀ ops) :
    ∃ c es, run step c₀ ops = some c ∧ c.tryIter Io.ok = .ok es ∧
      (∀ k, countOf k es = countOf k (sinceClear ops)) ∧
      ∀ e ∈ es, ∃ x ∈ sinceClear ops, x.item == e.item := by
  have hstart : c₀.Follows [] :=
    ⟨[], holds_of_new hnew, fun _ => rfl, fun e he => absurd he List.not_mem_nil⟩
  have hsim : ∀ (c : Collector K B) j op, c.Follows j → op.Fits c →
      ∃ c', step c op = some c' ∧ c'.Follows (journal j op) := fun _ _ _ h hop => h.step hop
  obtain ⟨c, hrun, es, hes, hcount, hkeys⟩ := run_simulates hsim hstart hfits
  exact ⟨c, es, hrun, hes.tryIter rfl, hcount, hkeys⟩

end Collector

end Pprof

namespace Pprof.Collector

local instance : Target := Target.linux
local instance : PlainLayout (Entry ℕ) (Entry ℕ) := PlainLayout.cell (Entry ℕ)

/-- Five keys of one bucket: the key `0` is evicted and inserted again, so its
counts are read from the bucket and from the overflow array. -/
theorem counts_conserved_evicted :
    ∃ c₀ c : Collector ℕ (Entry ℕ), ∃ es,
      run step c₀ [.add 0 5, .clear, .add 0 1, .add 4096 2, .add 8192 2, .add 12288 2,
        .add 16384 3, .add 0 4] = some c ∧
      c.tryIter Io.ok = .ok es ∧ countOf 0 es = 5 := by
  obtain ⟨c, es, hrun, hes, hcount, _⟩ := counts_conserved (K := ℕ) (B := Entry ℕ) rfl
    (show Along step _ _ [.add 0 5, .clear, .add 0 1, .add 4096 2, .add 8192 2, .add 12288 2,
      .add 16384 3, .add 0 4] by decide +kernel)
  exact ⟨_, c, es, hrun, hes, hcount 0⟩

end Pprof.Collector

/-! ### Keys that own memory -/

namespace Pprof

/-- A key that owns a block of the heap, as a `String` does: it is compared and
hashed by the text in the block. -/
structure Owned where
  address : ℕ
  text : ℕ

namespace Owned

instance : Inhabited Owned := ⟨⟨0, 0⟩⟩

instance : BEq Owned := ⟨fun x y => x.text == y.text⟩

instance : Hashable Owned := ⟨fun x => hash x.text⟩

instance : EquivBEq Owned where
  rfl := beq_self_eq_true (α := ℕ) _
  symm h := BEq.symm (α := ℕ) h
  trans h h' := BEq.trans (α := ℕ) h h'

instance : LawfulHashable Owned where
  hash_eq x y h := by
    have htext : x.text = y.text := eq_of_beq (α := ℕ) h
    show hash x.text = hash y.text
    rw [htext]

/-- The bytes of an entry have the address of the block only; its text is what the
heap has there when they are read. -/
@[reducible] def layout (heap : ℕ → ℕ) : Layout (Entry Owned) (ℕ × Int64) where
  size := 1
  size_pos := Nat.one_pos
  image e := [(e.item.address, e.isize)]
  read bs := ⟨⟨bs.headI.1, heap bs.headI.1⟩, bs.headI.2⟩
  zero := default
  length_image _ := rfl

end Owned

namespace Collector

/-- The keys that a call drops. -/
def Op.dropped {K B : Type*} [Target] [Layout (Entry K) B] [BEq K] [Hashable K]
    (c : Collector K B) : Op K → List K
  | .add key count =>
    (c.map.buckets (HashCounter.slot key)).dropped key ++
      ((c.map.add key count).1.toList.flatMap fun evict =>
        (c.tempArray.dropped Io.ok evict).map Entry.item)
  | .clear => []

end Collector

end Pprof

namespace Pprof.Owned

open Collector

local instance sevenSlots : Target := Target.largeDepth

/-- The key in the `n`-th block. -/
def key (n : ℕ) : Owned := ⟨n, 4096 * n⟩

/-- Twelve keys of one bucket, in blocks of their own. -/
def twelve : List (Op Owned) := (List.range 12).map fun n => .add (key (n + 1)) 1

/-- The blocks whose keys the calls drop; a default key has none. -/
def freed (ops : List (Op Owned)) : List ℕ :=
  letI := layout fun _ => 0
  ((new true : Except _ (Collector Owned (ℕ × Int64))).toOption.elim [] fun c =>
    trace step (fun c op => op.dropped c) c ops).filterMap fun key =>
      if key.address = 0 then none else some key.address

/-- The heap after the calls: something else is in the blocks that were freed. -/
def heap (ops : List (Op Owned)) (address : ℕ) : ℕ :=
  if address ∈ freed ops then 0 else 4096 * address

example : freed twelve = [1] := by decide +kernel

/-- The key that was evicted first is in the file when its slot of the buffer is
written again: it was added, but an entry of another key is read. -/
theorem not_counts_conserved_owned :
    letI := layout (heap twelve)
    ∃ (c₀ c : Collector Owned (ℕ × Int64)) (es : List (Entry Owned)), new true = .ok c₀ ∧
      Along step (fun c op => op.Fits c) c₀ twelve ∧ run step c₀ twelve = some c ∧
      c.tryIter Io.ok = .ok es ∧
      countOf (key 1) (sinceClear twelve) = 1 ∧ countOf (key 1) es = 0 ∧
      countOf ⟨0, 0⟩ (sinceClear twelve) = 0 ∧ countOf ⟨0, 0⟩ es = 1 := by
  let _ := layout (heap twelve)
  obtain ⟨c₀, hc₀⟩ : ∃ c₀ : Collector Owned (ℕ × Int64), new true = .ok c₀ := ⟨_, rfl⟩
  have hfits : Along step (fun c op => op.Fits c) c₀ twelve := by
    obtain rfl := Except.ok.inj hc₀
    decide +kernel
  have hsees : (run step c₀ twelve).map (fun c => (c.tryIter Io.ok).map fun es =>
      (countOf (key 1) es, countOf ⟨0, 0⟩ es)) = some (.ok (0, 1)) := by
    obtain rfl := Except.ok.inj hc₀
    decide +kernel
  obtain ⟨c, hrun, hread⟩ := Option.map_eq_some_iff.mp hsees
  cases hes : c.tryIter Io.ok with
  | error err =>
    rw [hes] at hread
    cases hread
  | ok es =>
    rw [hes] at hread
    obtain ⟨hlost, hother⟩ := Prod.mk.inj (Except.ok.inj hread)
    exact ⟨c₀, c, es, hc₀, hfits, hrun, hes, by decide, hlost, by decide, hother⟩

end Pprof.Owned
