/-
Which stack a full bucket gives up.

A bucket that is full evicts the first of its entries with the least count, and
nothing else of it changes; a key that is there, or finds a free slot, evicts
nothing.  So no entry is ever evicted while a lighter one is in its bucket.

* `minIndex_spec` — what the search for the least count finds;
* `add_evict` — what `add` does to a full bucket;
* `keeps_heavier` — the three branches of `add`, after any calls.
-/
import Pprof.LiveEntries

open Weight Wrapping

namespace Pprof.Bucket

variable {K : Type*}

/-- The search finds the first slot of those with the least count. -/
theorem foldl_minStep_spec (b : Bucket K) (n : ℕ) :
    ((List.range n).foldl b.minStep (0, b.countAt 0)).2
      = b.countAt ((List.range n).foldl b.minStep (0, b.countAt 0)).1 ∧
    (∀ i < n, ((List.range n).foldl b.minStep (0, b.countAt 0)).2 ≤ b.countAt i) ∧
    ∀ i < ((List.range n).foldl b.minStep (0, b.countAt 0)).1,
      ((List.range n).foldl b.minStep (0, b.countAt 0)).2 < b.countAt i := by
  induction n with
  | zero => exact ⟨rfl, fun i hi => by omega, fun i hi => absurd hi (Nat.not_lt_zero i)⟩
  | succ n ih =>
    obtain ⟨hcount, hle, hlt⟩ := ih
    rw [List.range_succ, List.foldl_append, List.foldl_cons, List.foldl_nil]
    generalize (List.range n).foldl b.minStep (0, b.countAt 0) = m at hcount hle hlt
    rw [minStep]
    by_cases hless : b.countAt n < m.2
    · -- the new slot has the least count so far
      rw [if_pos hless]
      refine ⟨rfl, fun i hi => ?_, fun i hi => hless.trans_le (hle i hi)⟩
      obtain hi | rfl := Nat.lt_succ_iff_lt_or_eq.mp hi
      · exact (hless.trans_le (hle i hi)).le
      · exact le_refl _
    · rw [if_neg hless]
      refine ⟨hcount, fun i hi => ?_, hlt⟩
      obtain hi | rfl := Nat.lt_succ_iff_lt_or_eq.mp hi
      · exact hle i hi
      · exact not_lt.mp hless

theorem minIndex_spec (b : Bucket K) :
    (∀ i < b.length, b.countAt b.minIndex ≤ b.countAt i) ∧
    ∀ i < b.minIndex, b.countAt b.minIndex < b.countAt i := by
  obtain ⟨hcount, hle, hlt⟩ := b.foldl_minStep_spec b.length
  rw [hcount] at hle hlt
  exact ⟨hle, hlt⟩

theorem countAt_getElem (b : Bucket K) {i : ℕ} (hi : i < b.entries.length) :
    b.countAt i = b.entries[i].count := by
  rw [countAt, List.getElem?_eq_getElem hi]
  rfl

/-- In a full bucket without the key, the first entry with the least count makes
room. -/
theorem add_evict [BEq K] {b : Bucket K} {key : K} (count : Int64)
    (hmiss : ∀ e ∈ b.iter, (e.item == key) = false) (hfull : b.length = BUCKETS_ASSOCIATIVITY) :
    ∃ l e r, b.iter = l ++ e :: r ∧ (b.add key count).1 = some e ∧
      (b.add key count).2.iter = l ++ ⟨key, count⟩ :: r ∧
      (∀ x ∈ l, e.count < x.count) ∧ ∀ x ∈ r, e.count ≤ x.count := by
  have hlen : b.length = b.entries.length := hfull.trans b.entries_length.symm
  have hiter : b.iter = b.entries := by rw [iter, hlen, List.take_length]
  have hmin := b.minIndex_lt
  -- the search ends with the first entry of least count
  obtain ⟨hle, hlt⟩ := b.minIndex_spec
  rw [b.countAt_getElem hmin] at hle hlt
  have hno : ¬ b.iter.any (·.item == key) = true := by simpa using hmiss
  have hroom : ¬ b.length < BUCKETS_ASSOCIATIVITY := by omega
  rw [add, if_neg hno, dif_neg hroom]
  refine ⟨b.entries.take b.minIndex, b.entries[b.minIndex], b.entries.drop (b.minIndex + 1),
    ?_, rfl, ?_, fun x hx => ?_, fun x hx => ?_⟩
  · rw [hiter, List.cons_getElem_drop_succ, List.take_append_drop]
  · simp only [iter]
    rw [List.take_of_length_le (by rw [List.length_set, ← hlen]),
      List.set_eq_take_append_cons_drop, if_pos hmin]
  · obtain ⟨i, hi, rfl⟩ := List.mem_take_iff_getElem.mp hx
    have hless := hlt i (by omega)
    rwa [b.countAt_getElem (by omega)] at hless
  · obtain ⟨i, hi, rfl⟩ := List.mem_drop_iff_getElem.mp hx
    have hless := hle (b.minIndex + 1 + i) (by omega)
    rwa [b.countAt_getElem (by omega)] at hless

/-- A key that is there has one entry, and only the count of this one changes. -/
theorem add_increase [BEq K] [EquivBEq K] {b : Bucket K} (hd : b.Distinct) {key : K}
    {count : Int64} (hfits : b.AddFits key count) {l r : List (Entry K)} {e : Entry K}
    (hb : b.iter = l ++ e :: r) (hkey : e.item == key) : (b.add key count).1 = none ∧
      (b.add key count).2.iter = l ++ e.increase count :: r ∧
      (e.increase count).count = e.count + count.toInt := by
  have hmem : e ∈ b.iter := hb ▸ List.mem_append_right l List.mem_cons_self
  have hany : b.iter.any (·.item == key) = true := List.any_eq_true.mpr ⟨e, hmem, hkey⟩
  -- no other entry of the bucket has the key, so only this one changes
  have hother : ∀ x : Entry K, (x.item == e.item) = false → ¬ (x.item == key) = true := by
    intro x hx hxkey
    rw [BEq.trans hxkey (BEq.symm hkey)] at hx
    cases hx
  unfold Distinct KeysDistinct at hd
  rw [hb] at hd
  obtain ⟨_, hr, hlr⟩ := List.pairwise_append.mp hd
  have hleft : ∀ x ∈ l, (if (x.item == key) = true then x.increase count else x) = x :=
    fun x hx => if_neg (hother x (hlr x hx e List.mem_cons_self))
  have hright : ∀ x ∈ r, (if (x.item == key) = true then x.increase count else x) = x := by
    intro x hx
    have hne := (List.pairwise_cons.mp hr).1 x hx
    rw [BEq.comm] at hne
    exact if_neg (hother x hne)
  rw [add, if_pos hany]
  refine ⟨rfl, ?_, Entry.count_increase_of_inRange (hfits e hmem hkey)⟩
  rw [iter_increase, hb, List.map_append, List.map_cons, if_pos hkey,
    List.map_congr_left hleft, List.map_congr_left hright, List.map_id', List.map_id']

/-- What `add` does to the entries, by the key and the room there is. -/
structure KeepsHeavier [BEq K] (b : Bucket K) (key : K) (count : Int64) : Prop where
  hit : ∀ l e r, b.iter = l ++ e :: r → e.item == key → (b.add key count).1 = none ∧
    (b.add key count).2.iter = l ++ e.increase count :: r ∧
    (e.increase count).count = e.count + count.toInt
  insert : (∀ e ∈ b.iter, (e.item == key) = false) → b.length < BUCKETS_ASSOCIATIVITY →
    (b.add key count).1 = none ∧ (b.add key count).2.iter = b.iter ++ [⟨key, count⟩]
  /-- Entries before the one that is evicted are heavier, those behind it not
  lighter. -/
  evict : (∀ e ∈ b.iter, (e.item == key) = false) → b.length = BUCKETS_ASSOCIATIVITY →
    ∃ l e r, b.iter = l ++ e :: r ∧ (b.add key count).1 = some e ∧
      (b.add key count).2.iter = l ++ ⟨key, count⟩ :: r ∧
      (∀ x ∈ l, e.count < x.count) ∧ ∀ x ∈ r, e.count ≤ x.count
  /-- Nothing is evicted while a lighter entry is in the bucket. -/
  least : ∀ e, (b.add key count).1 = some e → e ∈ b.iter ∧ ∀ x ∈ b.iter, e.count ≤ x.count

theorem keepsHeavier_of_distinct [BEq K] [EquivBEq K] {b : Bucket K} (hd : b.Distinct) {key : K}
    {count : Int64} (hfits : b.AddFits key count) : b.KeepsHeavier key count where
  hit _ _ _ hb hkey := add_increase hd hfits hb hkey
  insert hmiss hroom := by
    obtain ⟨⟨e, he, hkey⟩, _⟩ | ⟨_, _, b', hadd, hb'⟩ | ⟨_, hfull, _⟩ := b.add_cases key count
    · rw [hmiss e he] at hkey
      cases hkey
    · rw [hadd]
      exact ⟨rfl, hb'⟩
    · exact absurd hroom hfull
  evict hmiss hfull := add_evict count hmiss hfull
  least e he := by
    obtain ⟨_, hadd⟩ | ⟨_, _, b', hadd, _⟩ | ⟨hmiss, hfull, _⟩ := b.add_cases key count
    · rw [hadd] at he
      cases he
    · rw [hadd] at he
      cases he
    · -- the entry thrown out is in the bucket, below those before it and at most those after it
      have hle := b.length_le
      obtain ⟨l, e', r, hb, hevict, _, hl, hr⟩ := add_evict count hmiss (by omega)
      obtain rfl := Option.some.inj (hevict.symm.trans he)
      rw [hb]
      refine ⟨List.mem_append_right l List.mem_cons_self, fun x hx => ?_⟩
      obtain hx | hx := List.mem_append.mp hx
      · exact (hl x hx).le
      · obtain rfl | hx := List.mem_cons.mp hx
        · exact le_refl _
        · exact hr x hx

/-- A call of one of the two methods that change a bucket. -/
def call [BEq K] (b : Bucket K) : HashCounter.Call K → Bucket K
  | .add key count => (b.add key count).2
  | .clear => b.clear

theorem Distinct.call [BEq K] [EquivBEq K] {b : Bucket K} (h : b.Distinct)
    (c : HashCounter.Call K) : (b.call c).Distinct := by
  cases c with
  | add key count => exact distinct_add h key count
  | clear =>
    show KeysDistinct Entry.item b.clear.iter
    rw [iter_clear]
    exact List.Pairwise.nil

/-- **A bucket keeps the heavier stacks.**  Start from any bucket with distinct
keys: after any calls, `add` raises the count of a key that is there and leaves
all else; appends one that is not, if there is room; and otherwise puts it in
the place of the first entry with the least count, which it returns. -/
theorem keeps_heavier [BEq K] [EquivBEq K] {b : Bucket K} (hd : b.Distinct)
    (calls : List (HashCounter.Call K)) (key : K) {count : Int64}
    (hfits : (calls.foldl call b).AddFits key count) :
    (calls.foldl call b).KeepsHeavier key count := by
  have hrun : (calls.foldl call b).Distinct := by
    clear hfits
    induction calls generalizing b with
    | nil => exact hd
    | cons c calls ih => exact ih (hd.call c)
  exact keepsHeavier_of_distinct hrun hfits

/-- After `1`, `2`, `3`, `4` with the counts 3, 2, 5 and 2, the key `5` evicts
`2`. -/
theorem keeps_heavier_four :
    ∃ b : Bucket ℕ, b = [HashCounter.Call.add 1 3, .add 2 2, .add 3 5, .add 4 2].foldl call new ∧
      b.KeepsHeavier 5 1 ∧ (b.add 5 1).1 = some ⟨2, 2⟩ := by
  have hd : (new : Bucket ℕ).Distinct := List.Pairwise.nil
  have hfits : ([HashCounter.Call.add 1 3, .add 2 2, .add 3 5, .add 4 2].foldl call
      (new : Bucket ℕ)).AddFits 5 1 := by decide
  exact ⟨_, rfl, keeps_heavier hd _ 5 hfits, by decide⟩

end Pprof.Bucket
