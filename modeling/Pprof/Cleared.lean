/-
A cleared collector behaves like a new one.

Clearing resets lengths and indices: the old entries stay in the slots of the
buckets and of the overflow buffer, where they are stale.  `Same` relates
buckets, arrays and collectors that differ in stale slots only.  Adding keeps
this relation, with equal answers: where an operation reads a whole bucket or
the whole buffer, no slot of it is stale, so the two sides are equal.

* `Bucket.add_same`, `Same.push`, `Same.add` — stale slots are never observed;
* `clear_same_new` — a successful clear is a new collector but for stale slots;
* `cleared_like_new` — what `try_iter` yields after any further calls is what it
  yields for a new collector.
-/
import Pprof.Collector

open ByteFile

namespace Pprof

/-- With the same live entries, `add` answers the same and leaves the same live
entries. -/
theorem Bucket.add_same {K : Type*} [BEq K] {b b' : Bucket K} (h : b.iter = b'.iter) (key : K)
    (count : Int64) : (b.add key count).1 = (b'.add key count).1 ∧
      (b.add key count).2.iter = (b'.add key count).2.iter := by
  have hlen : b.length = b'.length := by rw [← length_iter, h, length_iter]
  by_cases hroom : b.length < BUCKETS_ASSOCIATIVITY
  · rcases b.add_cases key count with
      ⟨⟨e, he, hkey⟩, hadd⟩ | ⟨hmiss, _, c, hadd, hc⟩ | ⟨_, hfull, _⟩
    · rcases b'.add_cases key count with ⟨_, hadd'⟩ | ⟨hmiss', _⟩ | ⟨hmiss', _⟩
      · rw [hadd, hadd', iter_increase, iter_increase, h]
        exact ⟨rfl, rfl⟩
      · exact absurd hkey (by simp [hmiss' e (h ▸ he)])
      · exact absurd hkey (by simp [hmiss' e (h ▸ he)])
    · rcases b'.add_cases key count with ⟨⟨e, he, hkey⟩, _⟩ | ⟨_, _, c', hadd', hc'⟩ | ⟨_, hfull, _⟩
      · exact absurd hkey (by simp [hmiss e (h ▸ he)])
      · rw [hadd, hadd', hc, hc', h]
        exact ⟨rfl, rfl⟩
      · exact absurd (hlen ▸ hroom) hfull
    · exact absurd hroom hfull
  · -- no slot of a full bucket is stale
    have hentries : b.entries = b'.entries := by
      have hle := b.length_le
      have hle' := b'.length_le
      have hall : b.iter = b.entries := by
        rw [iter, List.take_of_length_le]
        rw [b.entries_length]
        omega
      have hall' : b'.iter = b'.entries := by
        rw [iter, List.take_of_length_le]
        rw [b'.entries_length]
        omega
      rw [← hall, h, hall']
    obtain rfl : b = b' := by
      cases b
      cases b'
      simp_all
    exact ⟨rfl, rfl⟩

/-- Counters that differ in stale slots only. -/
def HashCounter.Same {K : Type*} (m m' : HashCounter K) : Prop :=
  ∀ i, (m.buckets i).iter = (m'.buckets i).iter

theorem HashCounter.Same.iter {K : Type*} {m m' : HashCounter K} (h : m.Same m') :
    m.iter = m'.iter := by
  rw [HashCounter.iter, HashCounter.iter]
  exact List.flatMap_congr fun i _ => h i

theorem HashCounter.Same.add {K : Type*} [BEq K] [Hashable K] {m m' : HashCounter K}
    (h : m.Same m') (key : K) (count : Int64) :
    (m.add key count).1 = (m'.add key count).1 ∧ (m.add key count).2.Same (m'.add key count).2 := by
  obtain ⟨hevict, hiter⟩ := Bucket.add_same (h (slot key)) key count
  refine ⟨hevict, fun i => ?_⟩
  by_cases hi : i = slot key
  · subst hi
    simpa [HashCounter.add] using hiter
  · simpa [HashCounter.add, Function.update_of_ne hi] using h i

variable [Target]

namespace TempFdArray

variable {T B : Type*}

/-- Arrays that differ in stale slots only. -/
structure Same (a a' : TempFdArray T B) : Prop where
  file : a.file = a'.file
  bufferIndex : a.bufferIndex = a'.bufferIndex
  flushN : a.flushN = a'.flushN
  buffered : a.buffered = a'.buffered

variable [Layout T B]

theorem Same.tryIter {a a' : TempFdArray T B} (h : a.Same a') (io : Io) :
    a.tryIter io = a'.tryIter io := by
  rw [TempFdArray.tryIter, TempFdArray.tryIter, needed, needed, h.file, h.flushN, h.buffered]

theorem Same.push {a a' : TempFdArray T B} (h : a.Same a') (io : Io) (entry : T) :
    (a.push io entry).1 = (a'.push io entry).1 ∧
      (a.push io entry).2.Same (a'.push io entry).2 := by
  by_cases hroom : a.bufferIndex < BUFFER_LENGTH
  · have hroom' : a'.bufferIndex < BUFFER_LENGTH := h.bufferIndex ▸ hroom
    rw [TempFdArray.push, TempFdArray.push, dif_pos hroom, dif_pos hroom']
    refine ⟨rfl, h.file, congrArg (· + 1) h.bufferIndex, h.flushN, ?_⟩
    rw [buffered_store, buffered_store, h.buffered]
  · -- no slot of a full buffer is stale
    have hbuffer : a.buffer = a'.buffer := by
      rw [← buffered_of_full hroom, h.buffered, buffered_of_full (h.bufferIndex ▸ hroom)]
    obtain rfl : a = a' := by
      obtain ⟨hfile, hindex, hflush, _⟩ := h
      cases a
      cases a'
      simp_all
    exact ⟨rfl, rfl, rfl, rfl, rfl⟩

end TempFdArray

namespace Collector

variable {K B : Type*}

/-- Collectors that differ in stale slots only. -/
structure Same (c c' : Collector K B) : Prop where
  map : c.map.Same c'.map
  tempArray : c.tempArray.Same c'.tempArray

variable [Layout (Entry K) B]

theorem Same.tryIter {c c' : Collector K B} (h : c.Same c') (io : Io) :
    c.tryIter io = c'.tryIter io := by
  rw [Collector.tryIter, Collector.tryIter, h.map.iter, h.tempArray.tryIter]

/-- After a clear that succeeds only stale slots differ from a new collector. -/
theorem clear_same_new [Inhabited K] {c c₀ : Collector K B} (hnew : new true = .ok c₀) {io : Io}
    (hclear : (c.clear io).1 = .ok ()) : (c.clear io).2.Same c₀ := by
  obtain rfl := Except.ok.inj hnew
  cases hio : io.clearsOk with
  | false =>
    have herr := c.tempArray.clear_fails hio
    rw [Collector.clear, herr] at hclear
    cases hclear
  | true =>
    obtain ⟨_, hstores, hbuffered⟩ := c.tempArray.clear_stores hio
    obtain ⟨hindex, hflush⟩ := TempFdArray.clear_rewinds io c.tempArray
    -- set_len and seek have both succeeded: the file is that of a new array
    have hcontents : (c.tempArray.clear io).2.file.contents = [] := hstores.contents
    have hoffset : (c.tempArray.clear io).2.file.offset = 0 := by
      have hend := hstores.atEnd
      rwa [File.AtEnd, hcontents] at hend
    refine ⟨fun i => rfl, ?_, hindex, hflush, hbuffered⟩
    show (c.tempArray.clear io).2.file = File.new
    rw [File.new, ← hcontents, ← hoffset]

variable [BEq K] [Hashable K]

/-- Adding never observes a stale slot. -/
theorem Same.add {c c' : Collector K B} (h : c.Same c') (io : Io) (key : K) (count : Int64) :
    (c.add io key count).1 = (c'.add io key count).1 ∧
      (c.add io key count).2.Same (c'.add io key count).2 := by
  obtain ⟨hevict, hmap⟩ := h.map.add key count
  cases hev : (c.map.add key count).1 with
  | none =>
    rw [hev] at hevict
    rw [Collector.add, Collector.add]
    simp only [hev, ← hevict]
    exact ⟨trivial, hmap, h.tempArray⟩
  | some evict =>
    obtain ⟨hpushed, hpush⟩ := h.tempArray.push io evict
    rw [hev] at hevict
    rw [Collector.add, Collector.add]
    simp only [hev, ← hevict]
    exact ⟨hpushed, hmap, hpush⟩

/-- A history of calls of `add`, each with the answers of the file operations. -/
def addAll (c : Collector K B) (history : List (Io × K × Int64)) : Collector K B :=
  history.foldl (fun c a => (c.add a.1 a.2.1 a.2.2).2) c

theorem Same.addAll {c c' : Collector K B} (h : c.Same c') (history : List (Io × K × Int64)) :
    (c.addAll history).Same (c'.addAll history) := by
  induction history generalizing c c' with
  | nil => exact h
  | cons a history ih => exact ih (h.add a.1 a.2.1 a.2.2).2

/-- **A cleared collector is indistinguishable from a new one.**  Whatever was
added before a clear that returned `Ok`, what `try_iter` yields at each point
of a further history is what it yields for a new collector, and so are
`flush_n` and the length of the file. -/
theorem cleared_like_new [Inhabited K] {c₀ : Collector K B} (hnew : new true = .ok c₀)
    (h₁ h₂ : List (Io × K × Int64)) {io : Io} (hclear : ((c₀.addAll h₁).clear io).1 = .ok ()) :
    (∀ io', (((c₀.addAll h₁).clear io).2.addAll h₂).tryIter io' = (c₀.addAll h₂).tryIter io') ∧
    (((c₀.addAll h₁).clear io).2.addAll h₂).tempArray.flushN
      = (c₀.addAll h₂).tempArray.flushN ∧
    (((c₀.addAll h₁).clear io).2.addAll h₂).tempArray.file.contents.length
      = (c₀.addAll h₂).tempArray.file.contents.length := by
  have hsame := (clear_same_new hnew hclear).addAll h₂
  exact ⟨hsame.tryIter, hsame.tempArray.flushN,
    congrArg (fun file => file.contents.length) hsame.tempArray.file⟩

end Collector

end Pprof

namespace Pprof.Collector

local instance : Target := Target.linux
local instance : PlainLayout (Entry ℕ) (Entry ℕ) := PlainLayout.cell (Entry ℕ)

/-- A key that was evicted before the clear is added again after it. -/
theorem cleared_like_new_again :
    ∃ c₀ c : Collector ℕ (Entry ℕ), new true = .ok c₀ ∧
      c = ((c₀.addAll ([0, 4096, 8192, 12288, 16384].map fun k => (Io.ok, k, 1))).clear Io.ok).2 ∧
      (c.addAll [(Io.ok, 4096, 7)]).tryIter Io.ok
        = (c₀.addAll [(Io.ok, 4096, 7)]).tryIter Io.ok :=
  ⟨_, _, rfl, rfl, (cleared_like_new (K := ℕ) (B := Entry ℕ) rfl
    ([0, 4096, 8192, 12288, 16384].map fun k => (Io.ok, k, 1)) [(Io.ok, 4096, 7)] rfl).1 Io.ok⟩

end Pprof.Collector
