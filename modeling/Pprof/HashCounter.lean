/-
The hash counter that the signal handler counts stacks in.

`Bucket` and `HashCounter` follow `collector.rs`: 4096 buckets of four slots
each, all allocated once.  A bucket has a length; the slots from the length on
hold stale entries.  `Bucket.add` adds to the slot of the key, or fills the
next free slot, or, in a full bucket, gives the slot with the least count to
the new key and returns the old entry to the caller.

* `Bucket.add_cases` — everything `Bucket.add` can do to the live entries;
* `HashCounter.add_hit`, `HashCounter.add_miss` — what adding does to the
  entries of the counter and the evicted one, up to their order.
-/
import Pprof.Weight
import Pprof.Wrapping

open Weight Wrapping
open scoped List

namespace Pprof

/-- `BUCKETS`: the number of buckets.  Irreducible, so that no list of all
buckets is unfolded. -/
@[irreducible] def BUCKETS : ℕ := 2 ^ 12

theorem BUCKETS_pos : 0 < BUCKETS := by
  unfold BUCKETS
  decide

/-- `BUCKETS_ASSOCIATIVITY`: the number of slots of a bucket. -/
def BUCKETS_ASSOCIATIVITY : ℕ := 4

/-- A counted item; its count is an `isize` of a 64-bit target. -/
structure Entry (K : Type*) where
  item : K
  isize : Int64
  deriving DecidableEq

variable {K : Type*}

instance [Inhabited K] : Inhabited (Entry K) := ⟨⟨default, 0⟩⟩

namespace Entry

/-- The value of `count`. -/
def count (e : Entry K) : ℤ := e.isize.toInt

/-- `ele.count += count`. -/
def increase (e : Entry K) (count : Int64) : Entry K := { e with isize := e.isize + count }

@[simp] theorem count_mk (item : K) (n : Int64) : (⟨item, n⟩ : Entry K).count = n.toInt := rfl

@[simp] theorem item_increase (e : Entry K) (n : Int64) : (e.increase n).item = e.item := rfl

theorem count_increase (e : Entry K) (n : Int64) :
    (e.increase n).count = wrap 64 (e.count + n.toInt) := Int64.toInt_add e.isize n

/-- A sum that is an `isize`. -/
theorem count_increase_of_inRange {e : Entry K} {n : Int64}
    (h : InRange 64 (e.count + n.toInt)) : (e.increase n).count = e.count + n.toInt := by
  rw [count_increase, wrap_eq (by decide) h]

end Entry

/-- A bucket: the slots before `length` are live, the others stale. -/
structure Bucket (K : Type*) where
  length : ℕ
  entries : List (Entry K)
  length_le : length ≤ BUCKETS_ASSOCIATIVITY
  entries_length : entries.length = BUCKETS_ASSOCIATIVITY

namespace Bucket

/-- `Bucket::default`. -/
def new [Inhabited K] : Bucket K where
  length := 0
  entries := List.replicate BUCKETS_ASSOCIATIVITY default
  length_le := Nat.zero_le _
  entries_length := List.length_replicate

/-- Forget the live entries; they stay in their slots. -/
def clear (b : Bucket K) : Bucket K := { b with length := 0, length_le := Nat.zero_le _ }

/-- The entries the bucket's iterator yields. -/
def iter (b : Bucket K) : List (Entry K) := b.entries.take b.length

/-- The loop of `add` that adds to each live entry of the key. -/
def increase [BEq K] (b : Bucket K) (key : K) (count : Int64) : Bucket K where
  length := b.length
  entries := (b.iter.map fun ele => if ele.item == key then ele.increase count else ele) ++
    b.entries.drop b.length
  length_le := b.length_le
  entries_length := by
    rw [List.length_append, List.length_map, iter, ← List.length_append, List.take_append_drop,
      b.entries_length]

/-- The count of slot `index`. -/
def countAt (b : Bucket K) (index : ℕ) : ℤ := (b.entries[index]?).elim 0 Entry.count

/-- One round of the search for the least count; `m` is `(min_index, min_count)`. -/
def minStep (b : Bucket K) (m : ℕ × ℤ) (index : ℕ) : ℕ × ℤ :=
  if b.countAt index < m.2 then (index, b.countAt index) else m

/-- The slot `add` evicts from: `min_index` after the search. -/
def minIndex (b : Bucket K) : ℕ :=
  ((List.range b.length).foldl b.minStep (0, b.countAt 0)).1

theorem foldl_minStep_lt (b : Bucket K) {n : ℕ} : ∀ {l : List ℕ} {m : ℕ × ℤ},
    (∀ i ∈ l, i < n) → m.1 < n → (l.foldl b.minStep m).1 < n := by
  intro l
  induction l with
  | nil => exact fun _ hm => hm
  | cons i l ih =>
    intro m hl hm
    refine ih (fun j hj => hl j (List.mem_cons_of_mem _ hj)) ?_
    unfold minStep
    by_cases hc : b.countAt i < m.2
    · rw [if_pos hc]
      exact hl i List.mem_cons_self
    · rw [if_neg hc]
      exact hm

theorem minIndex_lt (b : Bucket K) : b.minIndex < b.entries.length := by
  rw [b.entries_length]
  refine foldl_minStep_lt b (fun i hi => ?_) (Nat.succ_pos 3)
  exact lt_of_lt_of_le (List.mem_range.mp hi) b.length_le

/-- `Bucket::add`: the evicted entry, if any, and the bucket after the call. -/
def add [BEq K] (b : Bucket K) (key : K) (count : Int64) : Option (Entry K) × Bucket K :=
  if b.iter.any (·.item == key) then
    -- the key is there
    (none, b.increase key count)
  else if h : b.length < BUCKETS_ASSOCIATIVITY then
    -- the first slot that is not live takes the key
    (none,
      { length := b.length + 1
        entries := b.entries.set b.length ⟨key, count⟩
        length_le := h
        entries_length := by rw [List.length_set, b.entries_length] })
  else
    -- the bucket is full: the entry with the least count makes room
    (some (b.entries.get ⟨b.minIndex, b.minIndex_lt⟩),
      { b with
        entries := b.entries.set b.minIndex ⟨key, count⟩
        entries_length := by rw [List.length_set, b.entries_length] })

/-- The keys that `add` drops: its argument, if the key is there, or the key in
the slot that is filled. -/
def dropped [BEq K] (b : Bucket K) (key : K) : List K :=
  if b.iter.any (·.item == key) then [key]
  else if b.length < BUCKETS_ASSOCIATIVITY then (b.entries[b.length]?).toList.map Entry.item
  else []

@[simp] theorem iter_new [Inhabited K] : (new : Bucket K).iter = [] := rfl

@[simp] theorem iter_clear (b : Bucket K) : b.clear.iter = [] := List.take_zero

theorem length_iter (b : Bucket K) : b.iter.length = b.length := by
  rw [iter, List.length_take, b.entries_length, Nat.min_eq_left b.length_le]

theorem iter_increase [BEq K] (b : Bucket K) (key : K) (count : Int64) :
    (b.increase key count).iter
      = b.iter.map fun ele => if ele.item == key then ele.increase count else ele := by
  rw [iter, increase]
  refine List.take_left' ?_
  rw [List.length_map, length_iter]

/-- What `add` does to the live entries: a hit, an insertion at the end, or an
eviction in place. -/
theorem add_cases [BEq K] (b : Bucket K) (key : K) (count : Int64) :
    ((∃ e ∈ b.iter, e.item == key) ∧ b.add key count = (none, b.increase key count)) ∨
    ((∀ e ∈ b.iter, (e.item == key) = false) ∧ b.length < BUCKETS_ASSOCIATIVITY ∧
      ∃ b', b.add key count = (none, b') ∧ b'.iter = b.iter ++ [⟨key, count⟩]) ∨
    ((∀ e ∈ b.iter, (e.item == key) = false) ∧ ¬ b.length < BUCKETS_ASSOCIATIVITY ∧
      ∃ evict b' l r, b.add key count = (some evict, b') ∧
        b.iter = l ++ evict :: r ∧ b'.iter = l ++ ⟨key, count⟩ :: r) := by
  unfold add
  by_cases hhit : b.iter.any (·.item == key)
  · rw [if_pos hhit]
    exact .inl ⟨List.any_eq_true.mp hhit, rfl⟩
  · have hmiss : ∀ e ∈ b.iter, (e.item == key) = false := by simpa using hhit
    rw [if_neg hhit]
    have hlen := b.entries_length
    by_cases hroom : b.length < BUCKETS_ASSOCIATIVITY
    · rw [dif_pos hroom]
      -- one more slot is live, and it was just written
      refine .inr (.inl ⟨hmiss, hroom, _, rfl, ?_⟩)
      simp only [iter]
      rw [List.take_add_one, List.take_set_of_le (Nat.le_refl _),
        List.getElem?_set_self (by rw [hlen]; exact hroom)]
      rfl
    · rw [dif_neg hroom]
      -- every slot is live: the entries are all there is
      have hfull : b.length = b.entries.length := by
        have := b.length_le
        omega
      have hiter : b.iter = b.entries := by rw [iter, hfull, List.take_length]
      refine .inr (.inr ⟨hmiss, hroom, _, _, b.entries.take b.minIndex,
        b.entries.drop (b.minIndex + 1), rfl, ?_, ?_⟩)
      · rw [hiter, List.get_eq_getElem, List.cons_getElem_drop_succ, List.take_append_drop]
      · simp only [iter]
        rw [List.take_of_length_le (by rw [List.length_set, ← hfull]),
          List.set_eq_take_append_cons_drop, if_pos b.minIndex_lt]

/-- No two live entries have the same key. -/
def Distinct [BEq K] (b : Bucket K) : Prop := KeysDistinct Entry.item b.iter

/-- Adding `count` to the live entry of `key` stays an `isize`. -/
def AddFits [BEq K] (b : Bucket K) (key : K) (count : Int64) : Prop :=
  ∀ e ∈ b.iter, e.item == key → InRange 64 (e.count + count.toInt)

instance [BEq K] (b : Bucket K) (key : K) (count : Int64) : Decidable (b.AddFits key count) :=
  inferInstanceAs (Decidable (∀ e ∈ b.iter, e.item == key → InRange 64 (e.count + count.toInt)))

theorem distinct_add [BEq K] [EquivBEq K] {b : Bucket K} (hd : b.Distinct) (key : K)
    (count : Int64) :
    (b.add key count).2.Distinct := by
  unfold Distinct at hd ⊢
  rcases b.add_cases key count with
    ⟨_, hadd⟩ | ⟨hmiss, _, b', hadd, hb'⟩ | ⟨hmiss, _, evict, b', l, r, hadd, hb, hb'⟩
  · rw [hadd, iter_increase]
    exact keysDistinct_bump (fun e => e.increase count) hd fun _ => rfl
  · rw [hadd, hb']
    refine List.pairwise_append.mpr ⟨hd, List.pairwise_singleton _ _, fun e he e' he' => ?_⟩
    rw [List.mem_singleton.mp he']
    exact hmiss e he
  · rw [hadd, hb']
    -- the key takes the place of the evicted entry, and is none of the others
    rw [hb] at hd hmiss
    obtain ⟨hl, hr, hlr⟩ := List.pairwise_append.mp hd
    refine List.pairwise_append.mpr ⟨hl, List.pairwise_cons.mpr ⟨fun e he => ?_,
      (List.pairwise_cons.mp hr).2⟩, fun e he e' he' => ?_⟩
    · rw [BEq.comm]
      exact hmiss e (List.mem_append_right _ (List.mem_cons_of_mem _ he))
    · rcases List.mem_cons.mp he' with rfl | he'
      · exact hmiss e (List.mem_append_left _ he)
      · exact hlr e he e' (List.mem_cons_of_mem _ he')

/-- A hit adds to the live entry of the key. -/
theorem iter_add_hit [BEq K] [EquivBEq K] {b : Bucket K} (hd : b.Distinct) {key : K} (count : Int64)
    {e : Entry K} (he : b.iter.find? (·.item == key) = some e) :
    (b.add key count).1 = none ∧ ∃ rest, b.iter.Perm (e :: rest) ∧
      (b.add key count).2.iter.Perm (e.increase count :: rest) := by
  have hmem := List.mem_of_find?_eq_some he
  have hkey := List.find?_some he
  rcases b.add_cases key count with ⟨_, hadd⟩ | ⟨hmiss, _⟩ | ⟨hmiss, _⟩
  · rw [hadd, iter_increase]
    exact ⟨rfl, bump_perm (fun ele => ele.increase count) hd hmem hkey⟩
  · rw [hmiss e hmem] at hkey
    cases hkey
  · rw [hmiss e hmem] at hkey
    cases hkey

/-- A miss makes an entry; no other is lost, but one may be evicted. -/
theorem iter_add_miss [BEq K] {b : Bucket K} {key : K} (count : Int64)
    (hmiss : b.iter.find? (·.item == key) = none) :
    ((b.add key count).2.iter ++ (b.add key count).1.toList).Perm (⟨key, count⟩ :: b.iter) := by
  rcases b.add_cases key count with
    ⟨⟨e, he, hkey⟩, _⟩ | ⟨_, _, b', hadd, hb'⟩ | ⟨_, _, evict, b', l, r, hadd, hb, hb'⟩
  · exact absurd hkey (List.find?_eq_none.mp hmiss e he)
  · rw [hadd, hb', Option.toList_none, List.append_nil]
    exact List.perm_append_singleton _ _
  · rw [hadd, hb, hb', Option.toList_some, List.append_assoc, List.cons_append]
    have hevict : (r ++ [evict]).Perm (evict :: r) := List.perm_append_singleton _ _
    calc l ++ ⟨key, count⟩ :: (r ++ [evict])
        ~ ⟨key, count⟩ :: (l ++ (r ++ [evict])) := List.perm_middle
      _ ~ ⟨key, count⟩ :: (l ++ evict :: r) := (hevict.append_left l).cons _

end Bucket

/-- Changing one of the lists that are joined leaves the others. -/
theorem flatMap_update_perm {α : Type*} {n : ℕ} (f : Fin n → List α) (i : Fin n) :
    ∃ others, ∀ l, ((List.finRange n).flatMap (Function.update f i l)).Perm (l ++ others) := by
  obtain ⟨s, t, hst⟩ := List.append_of_mem (List.mem_finRange i)
  have hnodup : (s ++ i :: t).Nodup := hst ▸ List.nodup_finRange n
  have hne : ∀ j ∈ s ++ t, j ≠ i := by
    intro j hj hji
    exact (List.nodup_middle.mp hnodup).notMem (hji ▸ hj)
  have hrest : ∀ r : List (Fin n), (∀ j ∈ r, j ∈ s ++ t) → ∀ l,
      r.flatMap (Function.update f i l) = r.flatMap f := by
    intro r hr l
    exact List.flatMap_congr fun j hj => Function.update_of_ne (hne j (hr j hj)) l f
  refine ⟨s.flatMap f ++ t.flatMap f, fun l => ?_⟩
  rw [hst, List.flatMap_append, List.flatMap_cons, Function.update_self,
    hrest s (fun j hj => List.mem_append_left t hj) l,
    hrest t (fun j hj => List.mem_append_right s hj) l, ← List.append_assoc, ← List.append_assoc]
  exact List.perm_append_comm.append_right _

/-! ### The counter -/

/-- `HashCounter`. -/
structure HashCounter (K : Type*) where
  buckets : Fin BUCKETS → Bucket K

namespace HashCounter

/-- `HashCounter::default`. -/
def new [Inhabited K] : HashCounter K := ⟨fun _ => Bucket.new⟩

def clear (m : HashCounter K) : HashCounter K := ⟨fun i => (m.buckets i).clear⟩

/-- The bucket of a key: `hash % BUCKETS`. -/
def slot [Hashable K] (key : K) : Fin BUCKETS :=
  ⟨(hash key).toNat % BUCKETS, Nat.mod_lt _ BUCKETS_pos⟩

/-- `HashCounter::add`: the evicted entry, if any, and the counter after the call. -/
def add [BEq K] [Hashable K] (m : HashCounter K) (key : K) (count : Int64) :
    Option (Entry K) × HashCounter K :=
  let bucket := (m.buckets (slot key)).add key count
  (bucket.1, ⟨Function.update m.buckets (slot key) bucket.2⟩)

/-- The entries the counter's iterator yields: those of the buckets in order. -/
def iter (m : HashCounter K) : List (Entry K) :=
  (List.finRange BUCKETS).flatMap fun i => (m.buckets i).iter

theorem mem_iter {m : HashCounter K} {e : Entry K} :
    e ∈ m.iter ↔ ∃ i, e ∈ (m.buckets i).iter := by
  simp [iter, List.mem_flatMap]

theorem iter_eq_nil {m : HashCounter K} : m.iter = [] ↔ ∀ i, (m.buckets i).length = 0 := by
  constructor
  · intro h i
    have hnil : (m.buckets i).iter = [] := by
      refine List.eq_nil_iff_forall_not_mem.mpr fun e he => ?_
      exact List.not_mem_nil (h ▸ mem_iter.mpr ⟨i, he⟩)
    rw [← Bucket.length_iter, hnil, List.length_nil]
  · intro h
    refine List.eq_nil_iff_forall_not_mem.mpr fun e he => ?_
    obtain ⟨i, hi⟩ := mem_iter.mp he
    have hpos := List.length_pos_of_mem hi
    rw [Bucket.length_iter, h i] at hpos
    omega

@[simp] theorem iter_new [Inhabited K] : (new : HashCounter K).iter = [] := by
  simp [iter, new]

@[simp] theorem iter_clear (m : HashCounter K) : m.clear.iter = [] := by
  simp [iter, clear]

/-- In every bucket the live keys are distinct. -/
def Distinct [BEq K] (m : HashCounter K) : Prop := ∀ i, (m.buckets i).Distinct

theorem distinct_of_iter_eq_nil [BEq K] {m : HashCounter K} (h : m.iter = []) : m.Distinct := by
  intro i
  have hnil : (m.buckets i).iter = [] := by
    rw [Bucket.iter, iter_eq_nil.mp h i, List.take_zero]
  rw [Bucket.Distinct, hnil]
  exact List.Pairwise.nil

variable [BEq K] [Hashable K]

/-- Adding `count` to the live entry of `key` stays an `isize`. -/
def AddFits (m : HashCounter K) (key : K) (count : Int64) : Prop :=
  (m.buckets (slot key)).AddFits key count

instance (m : HashCounter K) (key : K) (count : Int64) : Decidable (m.AddFits key count) :=
  inferInstanceAs (Decidable ((m.buckets (slot key)).AddFits key count))

theorem distinct_add [EquivBEq K] {m : HashCounter K} (hd : m.Distinct) (key : K) (count : Int64) :
    (m.add key count).2.Distinct := by
  intro i
  by_cases hi : i = slot key
  · subst hi
    simpa [add] using Bucket.distinct_add (hd (slot key)) key count
  · simpa [add, Function.update_of_ne hi] using hd i

/-- The live entry of a key. -/
def live (m : HashCounter K) (key : K) : Option (Entry K) :=
  (m.buckets (slot key)).iter.find? (·.item == key)

theorem live_eq_some {m : HashCounter K} {key : K} {e : Entry K} (h : m.live key = some e) :
    e ∈ (m.buckets (slot key)).iter ∧ e.item == key := by
  have hkey := List.find?_some h
  exact ⟨List.mem_of_find?_eq_some h, hkey⟩

/-- Only the bucket of the key changes. -/
theorem iter_add (m : HashCounter K) (key : K) (count : Int64) :
    ∃ others, m.iter.Perm ((m.buckets (slot key)).iter ++ others) ∧
      (m.add key count).2.iter.Perm
        (((m.buckets (slot key)).add key count).2.iter ++ others) := by
  obtain ⟨others, hothers⟩ := flatMap_update_perm (fun i => (m.buckets i).iter) (slot key)
  refine ⟨others, ?_, ?_⟩
  · have hsame := hothers (m.buckets (slot key)).iter
    rwa [Function.update_eq_self] at hsame
  · have hbuckets : (fun i => ((m.add key count).2.buckets i).iter)
        = Function.update (fun i => (m.buckets i).iter) (slot key)
            ((m.buckets (slot key)).add key count).2.iter :=
      Function.comp_update (Bucket.iter : Bucket K → _) m.buckets (slot key) _
    rw [iter, hbuckets]
    exact hothers _

/-- A hit adds to the live entry of the key. -/
theorem add_hit [EquivBEq K] {m : HashCounter K} (hd : m.Distinct) {key : K} (count : Int64)
    {e : Entry K} (he : m.live key = some e) :
    (m.add key count).1 = none ∧ ∃ rest, m.iter.Perm (e :: rest) ∧
      (m.add key count).2.iter.Perm (e.increase count :: rest) := by
  obtain ⟨hnone, rest, hbefore, hafter⟩ := Bucket.iter_add_hit (hd (slot key)) count he
  obtain ⟨others, hiter, hadd⟩ := m.iter_add key count
  exact ⟨hnone, rest ++ others, hiter.trans (hbefore.append_right others),
    hadd.trans (hafter.append_right others)⟩

/-- A miss makes an entry; no other is lost, but one may be evicted. -/
theorem add_miss {m : HashCounter K} {key : K} (count : Int64) (hmiss : m.live key = none) :
    ((m.add key count).2.iter ++ (m.add key count).1.toList).Perm (⟨key, count⟩ :: m.iter) := by
  have hbucket := Bucket.iter_add_miss count hmiss
  obtain ⟨others, hiter, hadd⟩ := m.iter_add key count
  have hevict : (others ++ (m.add key count).1.toList).Perm
      ((m.add key count).1.toList ++ others) := List.perm_append_comm
  calc (m.add key count).2.iter ++ (m.add key count).1.toList
      ~ ((m.buckets (slot key)).add key count).2.iter ++
        (others ++ (m.add key count).1.toList) := by
        rw [← List.append_assoc]
        exact hadd.append_right _
    _ ~ ((m.buckets (slot key)).add key count).2.iter ++
        ((m.add key count).1.toList ++ others) := hevict.append_left _
    _ ~ ⟨key, count⟩ :: ((m.buckets (slot key)).iter ++ others) := by
        rw [← List.append_assoc]
        exact hbucket.append_right others
    _ ~ ⟨key, count⟩ :: m.iter := hiter.symm.cons _

end HashCounter

end Pprof
