/-
When the collector needs its file.

A new collector has a temporary file, but writes to it only when an entry is
evicted and the overflow buffer is full.  `evicted` counts, on the hash counter
alone, the entries that were evicted since the last clear.

* `Resident.call` — while the buffer has room for what is evicted, no call
  depends on how the file operations answer;
* `needs_no_disk` — every `add` returns `Ok` on any disk exactly if at no time
  more entries were evicted than the buffer has slots;
* `Tracks.step`, `exact_within_capacity` — nothing was evicted exactly if no
  bucket was given more than four keys, and then the collector lists each key
  once with its exact count.
-/
import Pprof.Collector
import Pprof.LiveEntries

open ByteFile Weight Wrapping Transition
open scoped List

namespace Pprof

namespace Collector

variable {K B : Type*}

/-! ### What is evicted -/

section Evictions

variable [BEq K] [Hashable K]

/-- A call on the hash counter, counting the entries that are evicted. -/
def evictStep (s : HashCounter K × ℕ) : Op K → HashCounter K × ℕ
  | .add key count =>
    ((s.1.add key count).2, s.2 + if (s.1.add key count).1.isSome then 1 else 0)
  | .clear => (s.1.clear, 0)

/-- The number of entries that a new hash counter evicts since the last clear. -/
def evicted [Inhabited K] (ops : List (Op K)) : ℕ := (ops.foldl evictStep (HashCounter.new, 0)).2

end Evictions

/-! ### On any disk -/

variable [Target] [Layout (Entry K) B] [BEq K] [Hashable K]

/-- A call, whatever the file operations answer. -/
def call (c : Collector K B) (a : Io × Op K) : Except IoError Unit × Collector K B :=
  match a.2 with
  | .add key count => c.add a.1 key count
  | .clear => c.clear a.1

/-- The collector after a list of calls. -/
def callAll (c : Collector K B) (calls : List (Io × Op K)) : Collector K B :=
  calls.foldl (fun c a => (c.call a).2) c

/-- Each `add` of the calls returns `Ok`. -/
def AddsOk (c : Collector K B) : List (Io × Op K) → Prop
  | [] => True
  | a :: calls => (a.2 ≠ .clear → (c.call a).1 = .ok ()) ∧ AddsOk (c.call a).2 calls

/-- The file is as it was created, and the buffer has what was evicted. -/
structure Resident (c : Collector K B) (s : HashCounter K × ℕ) : Prop where
  map : c.map = s.1
  file : c.tempArray.file = File.new
  flushN : c.tempArray.flushN = 0
  bufferIndex : c.tempArray.bufferIndex = s.2

omit [Layout (Entry K) B] [BEq K] [Hashable K] in
theorem resident_new [Inhabited K] {c₀ : Collector K B} (hnew : new true = .ok c₀) :
    c₀.Resident (HashCounter.new, 0) := by
  obtain rfl := Except.ok.inj hnew
  exact ⟨rfl, rfl, rfl, rfl⟩

/-- A clear of a file that was never written. -/
theorem Resident.clear {c : Collector K B} {s : HashCounter K × ℕ} (h : c.Resident s) (io : Io) :
    (c.clear io).2 = (c.clear Io.ok).2 ∧ (c.clear io).2.Resident (evictStep s .clear) := by
  -- the file is empty and at its start, so cutting it and going there changes nothing
  have hset : c.tempArray.file.setLen (Layout.zero (Entry K)) 0 = c.tempArray.file := by
    rw [h.file]
    rfl
  have hseek : c.tempArray.file.seek 0 = c.tempArray.file := by
    rw [h.file]
    rfl
  have htemp : (c.tempArray.clear io).2 = c.tempArray.rewind 0 := by
    rw [TempFdArray.clear]
    cases io.setLen <;> cases io.seek <;> simp [TempFdArray.rewind, hset, hseek]
  have htemp' : (c.tempArray.clear Io.ok).2 = c.tempArray.rewind 0 := by
    simp [TempFdArray.clear, Io.ok, TempFdArray.rewind, hset, hseek]
  refine ⟨?_, ?_, ?_, ?_, ?_⟩
  · rw [Collector.clear, Collector.clear, htemp, htemp']
  · rw [Collector.clear, evictStep, h.map]
  · rw [Collector.clear, htemp]
    exact h.file
  · rw [Collector.clear, htemp]
    rfl
  · rw [Collector.clear, htemp]
    rfl

/-- An add that evicts nothing, or finds room in the buffer. -/
theorem Resident.add {c : Collector K B} {s : HashCounter K × ℕ} (h : c.Resident s) {key : K}
    {count : Int64} (hroom : (evictStep s (.add key count)).2 ≤ BUFFER_LENGTH) (io : Io) :
    c.add io key count = c.add Io.ok key count ∧ (c.add io key count).1 = .ok () ∧
      (c.add io key count).2.Resident (evictStep s (.add key count)) := by
  cases hev : (c.map.add key count).1 with
  | none =>
    have hadd : ∀ io, c.add io key count = (.ok (), ⟨(c.map.add key count).2, c.tempArray⟩) := by
      intro io
      simp only [Collector.add, hev]
    rw [hadd, hadd]
    refine ⟨rfl, rfl, ?_, h.file, h.flushN, ?_⟩
    · rw [evictStep, ← h.map]
    · rw [evictStep, ← h.map, hev]
      exact h.bufferIndex
  | some evict =>
    rw [evictStep, ← h.map, hev] at hroom
    -- the evicted entry still fits the buffer, so the file is not asked
    have hlt : c.tempArray.bufferIndex < BUFFER_LENGTH := by
      rw [h.bufferIndex]
      exact hroom
    have hadd : ∀ io, c.add io key count
        = (.ok (), ⟨(c.map.add key count).2, c.tempArray.store hlt evict⟩) := by
      intro io
      simp only [Collector.add, hev, TempFdArray.push, dif_pos hlt]
    rw [hadd, hadd]
    refine ⟨rfl, rfl, ?_, h.file, h.flushN, ?_⟩
    · rw [evictStep, ← h.map]
    · rw [evictStep, ← h.map, hev]
      exact congrArg (· + 1) h.bufferIndex

/-- A call that finds room neither fails nor depends on the file. -/
theorem Resident.call {c : Collector K B} {s : HashCounter K × ℕ} (h : c.Resident s) {op : Op K}
    (hroom : (evictStep s op).2 ≤ BUFFER_LENGTH) (io : Io) :
    (op ≠ .clear → (c.call (io, op)).1 = .ok ()) ∧ step c op = some (c.call (io, op)).2 ∧
      (c.call (io, op)).2.Resident (evictStep s op) := by
  cases op with
  | add key count =>
    obtain ⟨hsame, hok, hres⟩ := h.add hroom io
    refine ⟨fun _ => hok, ?_, hres⟩
    have hadd : c.add Io.ok key count = (.ok (), (c.add io key count).2) := by
      rw [← hsame]
      exact Prod.ext hok rfl
    rw [step, hadd]
    rfl
  | clear =>
    obtain ⟨hsame, hres⟩ := h.clear io
    refine ⟨fun hne => absurd rfl hne, ?_, hres⟩
    have hclear : c.clear Io.ok = (.ok (), (c.clear io).2) := by
      rw [hsame]
      rfl
    rw [step, hclear]
    rfl

theorem Resident.callAll {c : Collector K B} {s : HashCounter K × ℕ} (h : c.Resident s)
    {calls : List (Io × Op K)}
    (hroom : ∀ ops', ops' <+: calls.map Prod.snd → (ops'.foldl evictStep s).2 ≤ BUFFER_LENGTH) :
    c.AddsOk calls ∧ run step c (calls.map Prod.snd) = some (c.callAll calls) ∧
      (c.callAll calls).Resident ((calls.map Prod.snd).foldl evictStep s) := by
  induction calls generalizing c s with
  | nil => exact ⟨trivial, rfl, h⟩
  | cons a calls ih =>
    obtain ⟨io, op⟩ := a
    have hfirst : (evictStep s op).2 ≤ BUFFER_LENGTH :=
      hroom [op] (List.prefix_append [op] _)
    obtain ⟨hok, hstep, hres⟩ := h.call hfirst io
    obtain ⟨hoks, hrun, hend⟩ := ih hres fun ops' hops' =>
      hroom (op :: ops') (List.cons_prefix_cons.mpr ⟨rfl, hops'⟩)
    exact ⟨⟨hok, hoks⟩, run_cons_eq_some.mpr ⟨_, hstep, hrun⟩, hend⟩

/-- An eviction that finds the buffer full fails on a disk without room. -/
theorem Resident.add_fails {c : Collector K B} {s : HashCounter K × ℕ} (h : c.Resident s)
    {key : K} {count : Int64} (hfull : BUFFER_LENGTH < (evictStep s (.add key count)).2) :
    (c.add (Io.writing (.only 0)) key count).1 = .error .os := by
  have hle := c.tempArray.bufferIndex_le
  rw [h.bufferIndex] at hle
  rw [evictStep, ← h.map] at hfull
  cases hev : (c.map.add key count).1 with
  | none =>
    simp only [hev, Option.isSome_none] at hfull
    exact absurd hfull (by simpa using hle)
  | some evict =>
    simp only [hev, Option.isSome_some, if_true] at hfull
    -- the buffer is full, so this eviction is the first that needs the file
    have hindex : ¬ c.tempArray.bufferIndex < BUFFER_LENGTH := by
      rw [h.bufferIndex]
      omega
    have hpos : 0 < BUFFER_LENGTH * Layout.size (Entry K) B :=
      Nat.mul_pos BUFFER_LENGTH_pos Layout.size_pos
    obtain ⟨hroom, _⟩ | ⟨_, hfits, _⟩ | ⟨_, _, hpush⟩ :=
      c.tempArray.push_cases (Io.writing (.only 0)) evict
    · exact absurd hroom hindex
    · have hle' := of_decide_eq_true hfits
      omega
    · simp only [Collector.add, hev, hpush]

/-- Once more was evicted than the buffer has slots, a full disk is noticed. -/
theorem Resident.exists_fails {c : Collector K B} {s : HashCounter K × ℕ} (h : c.Resident s)
    {ops ops' : List (Op K)} (hops' : ops' <+: ops)
    (hfull : BUFFER_LENGTH < (ops'.foldl evictStep s).2) :
    ∃ calls : List (Io × Op K), calls.map Prod.snd = ops ∧ ¬ c.AddsOk calls := by
  -- until the first call that finds the buffer full the disk does not matter
  induction ops generalizing c s ops' with
  | nil =>
    obtain rfl := List.prefix_nil.mp hops'
    have hle := c.tempArray.bufferIndex_le
    rw [h.bufferIndex] at hle
    exact absurd hfull (Nat.not_lt.mpr hle)
  | cons op ops ih =>
    by_cases hroom : (evictStep s op).2 ≤ BUFFER_LENGTH
    · obtain rfl | ⟨_, rfl, hprefix⟩ := List.prefix_cons_iff.mp hops'
      · have hle := c.tempArray.bufferIndex_le
        rw [h.bufferIndex] at hle
        exact absurd hfull (Nat.not_lt.mpr hle)
      · obtain ⟨_, _, hres⟩ := h.call hroom Io.ok
        obtain ⟨calls, hcalls, hno⟩ := ih hres hprefix hfull
        exact ⟨(Io.ok, op) :: calls, by rw [List.map_cons, hcalls], fun hoks => hno hoks.2⟩
    · cases op with
      | clear => exact absurd (Nat.zero_le _) hroom
      | add key count =>
        -- there the disk is full
        have hfails := h.add_fails (Nat.lt_of_not_le hroom)
        refine ⟨(Io.writing (.only 0), .add key count) :: ops.map (Io.ok, ·), ?_, fun hoks => ?_⟩
        · rw [List.map_cons, List.map_map]
          exact congrArg _ (List.map_id' ops)
        · have hok : (c.add (Io.writing (.only 0)) key count).1 = .ok () :=
            hoks.1 fun heq => by cases heq
          rw [hfails] at hok
          cases hok

/-- **When the collector needs its file.**  Every `add` after `new` returns `Ok`,
whatever the operations of the temporary file answer, exactly if at no time more
entries had been evicted since the last clear than the buffer has slots.  And as
long as that is so, the file is as it was created and the collector is what it is
on a disk that does not fail. -/
theorem needs_no_disk [Inhabited K] {c₀ : Collector K B} (hnew : new true = .ok c₀)
    (ops : List (Op K)) :
    ((∀ calls : List (Io × Op K), calls.map Prod.snd = ops → c₀.AddsOk calls) ↔
      ∀ ops', ops' <+: ops → evicted ops' ≤ BUFFER_LENGTH) ∧
    ((∀ ops', ops' <+: ops → evicted ops' ≤ BUFFER_LENGTH) →
      ∀ calls : List (Io × Op K), calls.map Prod.snd = ops →
        (c₀.callAll calls).tempArray.file = File.new ∧
        (c₀.callAll calls).tempArray.flushN = 0 ∧
        run step c₀ ops = some (c₀.callAll calls)) := by
  have hres := resident_new hnew
  refine ⟨⟨fun hoks ops' hops' => ?_, fun hroom calls hcalls => ?_⟩, fun hroom calls hcalls => ?_⟩
  · by_contra hfull
    obtain ⟨calls, hcalls, hno⟩ := hres.exists_fails hops' (Nat.lt_of_not_le hfull)
    exact hno (hoks calls hcalls)
  · subst hcalls
    exact (hres.callAll hroom).1
  · subst hcalls
    obtain ⟨_, hrun, hend⟩ := hres.callAll hroom
    exact ⟨hend.file, hend.flushN, hrun⟩

/-! ### Within the buckets -/

section Capacity

omit [Target] [Layout (Entry K) B]

/-- At most as many keys as a bucket has slots were added to each bucket. -/
def Roomy (j : List (Entry K)) : Prop :=
  ∀ i, ∃ ks : List K, ks.length ≤ BUCKETS_ASSOCIATIVITY ∧
    ∀ x ∈ j, HashCounter.slot x.item = i → ∃ k ∈ ks, k == x.item

theorem roomy_of_cons {x : Entry K} {j : List (Entry K)} (h : Roomy (x :: j)) : Roomy j := by
  intro i
  obtain ⟨ks, hlen, hcover⟩ := h i
  exact ⟨ks, hlen, fun y hy => hcover y (List.mem_cons_of_mem _ hy)⟩

/-- The live entries are those of the journal `j`, all of them as long as none
was evicted. -/
structure Tracks (s : HashCounter K × ℕ) (j : List (Entry K)) : Prop where
  represents : s.1.Represents
  sound : ∀ e ∈ s.1.iter, ∃ x ∈ j, x.item == e.item
  complete : s.2 = 0 → ∀ x ∈ j, ∃ e ∈ s.1.iter, e.item == x.item
  roomy : Roomy j → s.2 = 0

theorem tracks_new [Inhabited K] : Tracks ((HashCounter.new : HashCounter K), 0) [] where
  represents := HashCounter.represents_new
  sound e he := absurd he (by simp)
  complete _ x hx := absurd hx List.not_mem_nil
  roomy _ := rfl

variable [EquivBEq K] [LawfulHashable K]

/-- A full bucket without the key has too many keys with it. -/
theorem Tracks.not_roomy {s : HashCounter K × ℕ} {j : List (Entry K)} (h : Tracks s j) {key : K}
    {count : Int64} {evict : Entry K} (hev : (s.1.add key count).1 = some evict) :
    ¬ Roomy (⟨key, count⟩ :: j) := by
  intro hroomy
  obtain ⟨ks, hlen, hcover⟩ := hroomy (HashCounter.slot key)
  have hev' : ((s.1.buckets (HashCounter.slot key)).add key count).1 = some evict := hev
  rcases (s.1.buckets (HashCounter.slot key)).add_cases key count with
    ⟨_, hadd⟩ | ⟨_, _, _, hadd, _⟩ | ⟨hmiss, hfull, _⟩
  · rw [hadd] at hev'
    cases hev'
  · rw [hadd] at hev'
    cases hev'
  · -- the keys of the bucket and the new one are different, and `ks` covers them
    have hd : KeysDistinct Entry.item
        (⟨key, count⟩ :: (s.1.buckets (HashCounter.slot key)).iter) := by
      refine List.pairwise_cons.mpr ⟨fun e he => ?_, h.represents.distinct _⟩
      rw [BEq.comm]
      exact hmiss e he
    have hall : ∀ e ∈ (⟨key, count⟩ : Entry K) :: (s.1.buckets (HashCounter.slot key)).iter,
        ∃ k ∈ ks, k == e.item := by
      intro e he
      obtain rfl | he := List.mem_cons.mp he
      · exact hcover _ List.mem_cons_self rfl
      · obtain ⟨x, hx, hxe⟩ := h.sound e (HashCounter.mem_iter.mpr ⟨_, he⟩)
        have hslot : HashCounter.slot x.item = HashCounter.slot key := by
          rw [← h.represents.placed _ e he, HashCounter.slot, HashCounter.slot, Fin.mk.injEq,
            LawfulHashable.hash_eq x.item e.item hxe]
        obtain ⟨k, hk, hkx⟩ := hcover x (List.mem_cons_of_mem _ hx) hslot
        exact ⟨k, hk, BEq.trans hkx hxe⟩
    have hle := length_le_of_cover hd hall
    rw [List.length_cons, Bucket.length_iter] at hle
    omega

omit [LawfulHashable K] in
/-- The keys after an add are those of before and the new one; all of them, if
nothing was evicted. -/
theorem keys_add {m : HashCounter K} (hd : m.Distinct) (key : K) (count : Int64) :
    (∀ e ∈ (m.add key count).2.iter, ∃ x ∈ ⟨key, count⟩ :: m.iter, x.item == e.item) ∧
    ((m.add key count).1 = none →
      ∀ x ∈ ⟨key, count⟩ :: m.iter, ∃ e ∈ (m.add key count).2.iter, e.item == x.item) := by
  cases hlive : m.live key with
  | some live =>
    -- the live entry of the key goes on under the same item
    obtain ⟨_, rest, hbefore, hafter⟩ := HashCounter.add_hit hd count hlive
    obtain ⟨_, hkey⟩ := HashCounter.live_eq_some hlive
    have hmem : live.increase count ∈ (m.add key count).2.iter :=
      hafter.mem_iff.mpr List.mem_cons_self
    refine ⟨fun e he => ?_, fun _ x hx => ?_⟩
    · obtain rfl | he := List.mem_cons.mp (hafter.mem_iff.mp he)
      · exact ⟨live, List.mem_cons_of_mem _ (hbefore.mem_iff.mpr List.mem_cons_self), BEq.rfl⟩
      · exact ⟨e, List.mem_cons_of_mem _ (hbefore.mem_iff.mpr (List.mem_cons_of_mem _ he)), BEq.rfl⟩
    · obtain rfl | hx := List.mem_cons.mp hx
      · exact ⟨_, hmem, hkey⟩
      · obtain rfl | hx := List.mem_cons.mp (hbefore.mem_iff.mp hx)
        · exact ⟨_, hmem, BEq.rfl⟩
        · exact ⟨x, hafter.mem_iff.mpr (List.mem_cons_of_mem _ hx), BEq.rfl⟩
  | none =>
    have hperm := HashCounter.add_miss count hlive
    refine ⟨fun e he => ?_, fun hnone x hx => ?_⟩
    · exact ⟨e, hperm.mem_iff.mp (List.mem_append_left _ he), BEq.rfl⟩
    · rw [hnone, Option.toList_none, List.append_nil] at hperm
      exact ⟨x, hperm.mem_iff.mpr hx, BEq.rfl⟩

/-- One call keeps the live entries in step with the journal. -/
theorem Tracks.step {s : HashCounter K × ℕ} {j : List (Entry K)} (h : Tracks s j) (op : Op K) :
    Tracks (evictStep s op) (journal j op) := by
  cases op with
  | clear =>
    refine ⟨⟨h.represents.placed.call .clear,
      HashCounter.distinct_call h.represents.distinct .clear⟩,
      fun e he => absurd he (by simp [evictStep]), fun _ x hx => absurd hx List.not_mem_nil,
      fun _ => rfl⟩
  | add key count =>
    obtain ⟨hsound, hcomplete⟩ := keys_add h.represents.distinct key count
    refine ⟨⟨h.represents.placed.call (.add key count),
      HashCounter.distinct_add h.represents.distinct key count⟩, fun e he => ?_,
      fun hzero x hx => ?_, fun hroomy => ?_⟩
    · obtain ⟨x, hx, hxe⟩ := hsound e he
      obtain rfl | hx := List.mem_cons.mp hx
      · exact ⟨_, List.mem_cons_self, hxe⟩
      · obtain ⟨y, hy, hyx⟩ := h.sound x hx
        exact ⟨y, List.mem_cons_of_mem _ hy, BEq.trans hyx hxe⟩
    · -- as nothing is evicted, the keys of before are still there
      cases hev : (s.1.add key count).1 with
      | some evict => simp [evictStep, hev] at hzero
      | none =>
        have hzero' : s.2 = 0 := by simpa [evictStep, hev] using hzero
        obtain rfl | hx := List.mem_cons.mp hx
        · exact hcomplete hev _ List.mem_cons_self
        · obtain ⟨e, he, hex⟩ := h.complete hzero' x hx
          obtain ⟨e', he', hee⟩ := hcomplete hev e (List.mem_cons_of_mem _ he)
          exact ⟨e', he', BEq.trans hee hex⟩
    · cases hev : (s.1.add key count).1 with
      | some evict => exact absurd hroomy (h.not_roomy hev)
      | none => simpa [evictStep, hev] using h.roomy (roomy_of_cons hroomy)

theorem tracks_evicted [Inhabited K] (ops : List (Op K)) :
    Tracks (ops.foldl evictStep (HashCounter.new, 0)) (sinceClear ops) := by
  have hrun : ∀ (ops : List (Op K)) s j, Tracks s j →
      Tracks (ops.foldl evictStep s) (ops.foldl journal j) := by
    intro ops
    induction ops with
    | nil => exact fun _ _ h => h
    | cons op ops ih => exact fun s j h => ih _ _ (h.step op)
  exact hrun ops _ _ tracks_new

omit [EquivBEq K] in
/-- Nothing that was added since the last clear has been evicted exactly if no
bucket was given more keys than it has slots. -/
theorem Tracks.eq_zero_iff {s : HashCounter K × ℕ} {j : List (Entry K)} (h : Tracks s j) :
    s.2 = 0 ↔ Roomy j := by
  refine ⟨fun hzero i => ?_, h.roomy⟩
  refine ⟨(s.1.buckets i).iter.map Entry.item, ?_, fun x hx hslot => ?_⟩
  · rw [List.length_map, Bucket.length_iter]
    exact (s.1.buckets i).length_le
  · obtain ⟨e, he, hex⟩ := h.complete hzero x hx
    obtain ⟨i', hi'⟩ := HashCounter.mem_iter.mp he
    have hsame : i' = i := by
      rw [← h.represents.placed i' e hi', ← hslot, HashCounter.slot, HashCounter.slot, Fin.mk.injEq,
        LawfulHashable.hash_eq e.item x.item hex]
    exact ⟨e.item, List.mem_map_of_mem (hsame ▸ hi'), hex⟩

end Capacity

/-- The collector has the hash counter of `s`, and nothing in its overflow array
if nothing was evicted. -/
def Mirrors (c : Collector K B) (s : HashCounter K × ℕ) : Prop :=
  c.map = s.1 ∧ (s.2 = 0 → c.tempArray.bufferIndex = 0 ∧ c.tempArray.flushN = 0)

theorem eq_call_of_step {c c' : Collector K B} {op : Op K} (h : step c op = some c') :
    c' = (c.call (Io.ok, op)).2 := by
  cases op with
  | add key count =>
    cases hadd : c.add Io.ok key count with
    | mk answer c₁ => cases answer <;> simp_all [step, call]
  | clear =>
    cases hclear : c.clear Io.ok with
    | mk answer c₁ => cases answer <;> simp_all [step, call]

theorem Mirrors.call {c : Collector K B} {s : HashCounter K × ℕ} (h : c.Mirrors s) (op : Op K) :
    (c.call (Io.ok, op)).2.Mirrors (evictStep s op) := by
  obtain ⟨hmap, hzero⟩ := h
  cases op with
  | clear =>
    -- a clear empties the buffer as the counted evictions start again
    refine ⟨?_, fun _ => TempFdArray.clear_rewinds Io.ok c.tempArray⟩
    rw [evictStep, ← hmap]
    rfl
  | add key count =>
    rw [evictStep, ← hmap]
    cases hev : (c.map.add key count).1 with
    | none =>
      simp only [Collector.call, Collector.add, hev]
      exact ⟨rfl, hzero⟩
    | some evict =>
      simp only [Collector.call, Collector.add, hev]
      exact ⟨rfl, fun h => absurd h (Nat.succ_ne_zero _)⟩

theorem Mirrors.run {c c' : Collector K B} {s : HashCounter K × ℕ} (h : c.Mirrors s)
    {ops : List (Op K)} (hrun : run Collector.step c ops = some c') :
    c'.Mirrors (ops.foldl evictStep s) := by
  induction ops generalizing c s with
  | nil => exact Option.some.inj hrun ▸ h
  | cons op ops ih =>
    obtain ⟨c₁, hstep, hrest⟩ := run_cons_eq_some.mp hrun
    exact ih (eq_call_of_step hstep ▸ h.call op) hrest

/-- **Within the buckets the collector counts exactly.**  Nothing that was added
since the last clear has been evicted exactly if no bucket was given more than
four different keys since then; and then `try_iter` lists each of the keys once,
with all that was added for it. -/
theorem exact_within_capacity [Inhabited K] [EquivBEq K] [LawfulHashable K] {c₀ : Collector K B}
    (hnew : new true = .ok c₀) {ops : List (Op K)}
    (hfits : Along step (fun c op => op.Fits c) c₀ ops) :
    (evicted ops = 0 ↔ Roomy (sinceClear ops)) ∧
    (Roomy (sinceClear ops) → ∃ c es, run step c₀ ops = some c ∧ c.tryIter Io.ok = .ok es ∧
      KeysDistinct Entry.item es ∧
      (∀ k, (∃ e ∈ es, e.item == k) ↔ ∃ x ∈ sinceClear ops, x.item == k) ∧
      ∀ e ∈ es, e.count = countOf e.item (sinceClear ops)) := by
  have htracks := tracks_evicted ops
  refine ⟨htracks.eq_zero_iff, fun hroomy => ?_⟩
  have hstart : c₀.Follows [] :=
    ⟨[], holds_of_new hnew, fun _ => rfl, fun e he => absurd he List.not_mem_nil⟩
  have hsim : ∀ (c : Collector K B) j op, c.Follows j → op.Fits c →
      ∃ c', step c op = some c' ∧ c'.Follows (journal j op) := fun _ _ _ h hop => h.step hop
  obtain ⟨c, hrun, es, hes, hcount, _⟩ := run_simulates hsim hstart hfits
  have hmirror : c₀.Mirrors (HashCounter.new, 0) := by
    have hres := resident_new hnew
    exact ⟨hres.map, fun _ => ⟨hres.bufferIndex, hres.flushN⟩⟩
  obtain ⟨hmap, hempty⟩ := hmirror.run hrun
  have hzero : (ops.foldl evictStep (HashCounter.new, 0)).2 = 0 := htracks.roomy hroomy
  obtain ⟨hindex, hflush⟩ := hempty hzero
  have hiter : es = c.map.iter := by
    obtain ⟨_, fl, hstores, hfl⟩ := hes
    have hnil : fl = [] := by
      have hlength := hstores.length
      rw [hflush, Nat.mul_zero] at hlength
      exact List.eq_nil_of_length_eq_zero hlength
    rw [hfl, hnil, TempFdArray.buffered, hindex, List.take_zero, List.append_nil, List.append_nil]
  -- nothing is read from the overflow array, so it does not matter what its bytes decode to
  have hread : c.tryIter Io.ok = .ok es := by
    refine tryIter_eq_ok.mpr ⟨rfl, ?_, ?_⟩
    · rw [TempFdArray.needed, hflush, Nat.mul_zero, Nat.zero_mul]
      exact Nat.zero_le _
    · rw [hiter, TempFdArray.buffered, hindex, TempFdArray.needed, hflush]
      simp [readList, readArray]
  have hdistinct : KeysDistinct Entry.item es := by
    rw [hiter, hmap]
    exact htracks.represents.keysDistinct
  refine ⟨c, es, hrun, hread, hdistinct, fun k => ⟨?_, ?_⟩, fun e he => ?_⟩
  · rintro ⟨e, he, hek⟩
    rw [hiter, hmap] at he
    obtain ⟨x, hx, hxe⟩ := htracks.sound e he
    exact ⟨x, hx, BEq.trans hxe hek⟩
  · rintro ⟨x, hx, hxk⟩
    obtain ⟨e, he, hex⟩ := htracks.complete hzero x hx
    refine ⟨e, ?_, BEq.trans hex hxk⟩
    rw [hiter, hmap]
    exact he
  · calc e.count = countOf e.item es := (weight_eq_of_mem hdistinct he).symm
      _ = countOf e.item (sinceClear ops) := hcount e.item

end Collector

end Pprof

namespace Pprof.Collector

local instance onLinux : Target := Target.linux
local instance entryCell : PlainLayout (Entry ℕ) (Entry ℕ) := PlainLayout.cell (Entry ℕ)

/-- Five keys of one bucket on any disk: one entry waits in the buffer. -/
theorem needs_no_disk_evicted : ∃ c₀ : Collector ℕ (Entry ℕ),
    ∀ calls : List (Io × Op ℕ), calls.map Prod.snd
      = [.add 0 1, .add 4096 2, .add 8192 2, .add 12288 2, .add 16384 3, .clear] →
      c₀.AddsOk calls := by
  have hroom : ∀ ops' ∈ ([.add 0 1, .add 4096 2, .add 8192 2, .add 12288 2, .add 16384 3,
      .clear] : List (Op ℕ)).inits, evicted ops' ≤ BUFFER_LENGTH := by decide +kernel
  exact ⟨_, (needs_no_disk (K := ℕ) (B := Entry ℕ) rfl _).1.mpr fun ops' hops' =>
    hroom ops' ((List.mem_inits _ _).mpr hops')⟩

/-- Four keys of one bucket, one of them twice; a fifth was forgotten by the
clear. -/
theorem exact_within_capacity_cleared : ∃ c₀ c : Collector ℕ (Entry ℕ), ∃ es,
    run step c₀ [.add 16384 3, .clear, .add 0 1, .add 4096 2, .add 8192 2, .add 12288 2,
      .add 0 4] = some c ∧
    c.tryIter Io.ok = .ok es ∧ KeysDistinct Entry.item es ∧
    ∀ e ∈ es, e.count = countOf e.item (sinceClear [.add 16384 3, .clear, .add 0 1, .add 4096 2,
      .add 8192 2, .add 12288 2, .add 0 4]) := by
  obtain ⟨hiff, hexact⟩ := exact_within_capacity (K := ℕ) (B := Entry ℕ) rfl
    (show Along step _ _ [.add 16384 3, .clear, .add 0 1, .add 4096 2, .add 8192 2, .add 12288 2,
      .add 0 4] by decide +kernel)
  obtain ⟨c, es, hrun, hes, hdistinct, _, hcount⟩ := hexact (hiff.mp (by decide +kernel))
  exact ⟨_, c, es, hrun, hes, hdistinct, hcount⟩

end Pprof.Collector
