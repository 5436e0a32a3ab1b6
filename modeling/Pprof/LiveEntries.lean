/-
The live entries of the hash counter.

A key is looked for in one bucket only, so the counter does not count a key
twice only as long as every live entry is in the bucket of its hash, and equal
keys hash equally.  For recorded stacks both come from the same words: the
function addresses and the thread id.

* `Placed.call`, `HashCounter.distinct_call` — what the calls of `add` and
  `clear` preserve;
* `Placed.keysDistinct` — then no two live entries of the counter have equal
  keys;
* `HashCounter.iterator_yields` — the chain of the iterators of the buckets
  yields the live entries in the order of the buckets.
-/
import Pprof.HashCounter
import Pprof.Frames
import Pprof.Iteration

open Iteration Weight

namespace Pprof

variable {K : Type*}

/-! ### The iterators -/

/-- `BucketIterator`. -/
structure BucketIterator (K : Type*) where
  relatedBucket : Bucket K
  index : ℕ

/-- `BucketIterator::next`; reading behind the slots of the bucket would
panic. -/
def BucketIterator.next (it : BucketIterator K) : Option (Option (Entry K) × BucketIterator K) :=
  if it.index < it.relatedBucket.length then
    let it := { it with index := it.index + 1 }
    it.relatedBucket.entries[it.index - 1]?.map fun e => (some e, it)
  else some (none, it)

/-- `Bucket::iter`, the iterator itself. -/
def Bucket.iterator (b : Bucket K) : DynIter (Entry K) := ⟨⟨b, 0⟩, BucketIterator.next⟩

theorem Bucket.iterator_yields (b : Bucket K) : b.iterator.Yields b.iter := by
  have hitem : ∀ i e, b.iter[i]? = some e →
      BucketIterator.next ⟨b, i⟩ = some (some e, ⟨b, i + 1⟩) := by
    intro i e he
    have hlt : i < b.length := by
      have hi := (List.getElem?_eq_some_iff.mp he).1
      rwa [length_iter] at hi
    rw [iter, List.getElem?_take_of_lt hlt] at he
    rw [BucketIterator.next, if_pos hlt]
    show b.entries[i]?.map _ = _
    rw [he, Option.map_some]
  have hend : BucketIterator.next ⟨b, b.iter.length⟩ = some (none, ⟨b, b.iter.length⟩) := by
    rw [BucketIterator.next, if_neg]
    rw [length_iter]
    exact lt_irrefl _
  exact yields_of_index hitem hend 0 (Nat.zero_le _)

/-- `HashCounter::iter`, the iterator itself: that of the first bucket, with
those of the others put behind it one by one. -/
def HashCounter.iterator (m : HashCounter K) : DynIter (Entry K) :=
  let first := (m.buckets ⟨0, BUCKETS_pos⟩).iterator.chain DynIter.empty
  (List.finRange BUCKETS).tail.foldl (fun it i => it.chain (m.buckets i).iterator) first

theorem finRange_eq_cons : ∀ {n : ℕ} (h : 0 < n),
    List.finRange n = ⟨0, h⟩ :: (List.finRange n).tail
  | n + 1, _ => by
    rw [List.finRange_succ]
    rfl

/-- The iterator yields the live entries, bucket by bucket. -/
theorem HashCounter.iterator_yields (m : HashCounter K) : m.iterator.Yields m.iter := by
  have hfirst : ((m.buckets ⟨0, BUCKETS_pos⟩).iterator.chain DynIter.empty).Yields
      (m.buckets ⟨0, BUCKETS_pos⟩).iter := by
    have hchain := (m.buckets ⟨0, BUCKETS_pos⟩).iterator_yields.chain DynIter.empty_yields
    rwa [List.append_nil] at hchain
  have hfold := DynIter.Yields.foldl_chain (fun i => (m.buckets i).iterator_yields)
    (List.finRange BUCKETS).tail hfirst
  rw [← List.flatMap_cons (f := fun i => (m.buckets i).iter), ← finRange_eq_cons] at hfold
  exact hfold

/-! ### Where entries are -/

/-- The items of the live entries after `add` were there before, or are the key. -/
theorem Bucket.item_of_mem_add [BEq K] {b : Bucket K} {key : K} {count : Int64} {e : Entry K}
    (he : e ∈ (b.add key count).2.iter) : e.item = key ∨ ∃ e' ∈ b.iter, e'.item = e.item := by
  rcases b.add_cases key count with
    ⟨_, hadd⟩ | ⟨_, _, b', hadd, hb'⟩ | ⟨_, _, evict, b', l, r, hadd, hb, hb'⟩
  · rw [hadd, iter_increase] at he
    obtain ⟨e', he', rfl⟩ := List.mem_map.mp he
    -- a hit changes counts, not keys
    refine .inr ⟨e', he', ?_⟩
    split <;> rfl
  · rw [hadd, hb'] at he
    rcases List.mem_append.mp he with he | he
    · exact .inr ⟨e, he, rfl⟩
    · rw [List.mem_singleton.mp he]
      exact .inl rfl
  · rw [hadd, hb'] at he
    rw [hb]
    rcases List.mem_append.mp he with he | he
    · exact .inr ⟨e, List.mem_append_left _ he, rfl⟩
    · rcases List.mem_cons.mp he with rfl | he
      · exact .inl rfl
      · exact .inr ⟨e, List.mem_append_right _ (List.mem_cons_of_mem _ he), rfl⟩

namespace HashCounter

/-- A call of one of the two methods that change the counter. -/
inductive Call (K : Type*) where
  | add (key : K) (count : Int64)
  | clear

variable [BEq K] [Hashable K]

def call (m : HashCounter K) : Call K → HashCounter K
  | .add key count => (m.add key count).2
  | .clear => m.clear

/-- Every live entry is in the bucket of its hash. -/
def Placed (m : HashCounter K) : Prop := ∀ i, ∀ e ∈ (m.buckets i).iter, slot e.item = i

theorem Placed.call {m : HashCounter K} (h : m.Placed) (c : Call K) : (m.call c).Placed := by
  intro i e he
  cases c with
  | clear => exact absurd he (by simp [HashCounter.call, clear])
  | add key count =>
    by_cases hi : i = slot key
    · subst hi
      have he : e ∈ ((m.buckets (slot key)).add key count).2.iter := by
        simpa [HashCounter.call, add] using he
      obtain hkey | ⟨e', he', hitem⟩ := Bucket.item_of_mem_add he
      · rw [hkey]
      · rw [← hitem]
        exact h _ e' he'
    · refine h i e ?_
      simpa [HashCounter.call, add, Function.update_of_ne hi] using he

theorem distinct_call [EquivBEq K] {m : HashCounter K} (h : m.Distinct) (c : Call K) :
    (m.call c).Distinct := by
  cases c with
  | add key count => exact distinct_add h key count
  | clear => exact distinct_of_iter_eq_nil (iter_clear m)

/-- The invariant of the counter. -/
structure Represents (m : HashCounter K) : Prop where
  placed : m.Placed
  distinct : m.Distinct

theorem represents_new [Inhabited K] : (new : HashCounter K).Represents where
  placed i e he := absurd he (by simp [new])
  distinct := distinct_of_iter_eq_nil iter_new

theorem Represents.run [EquivBEq K] {m : HashCounter K} (h : m.Represents) (calls : List (Call K)) :
    (calls.foldl HashCounter.call m).Represents := by
  induction calls generalizing m with
  | nil => exact h
  | cons c calls ih => exact ih ⟨h.placed.call c, distinct_call h.distinct c⟩

/-- Equal keys would be in one bucket, where keys are distinct. -/
theorem Represents.keysDistinct [LawfulHashable K] {m : HashCounter K} (h : m.Represents) :
    KeysDistinct Entry.item m.iter := by
  rw [KeysDistinct, iter, List.pairwise_flatMap]
  refine ⟨fun i _ => h.distinct i, (List.nodup_finRange BUCKETS).imp ?_⟩
  intro i j hij e he e' he'
  rw [Bool.eq_false_iff]
  intro heq
  have hslot : slot e.item = slot e'.item := by
    rw [slot, slot, Fin.mk.injEq, LawfulHashable.hash_eq e.item e'.item heq]
  rw [h.placed i e he, h.placed j e' he'] at hslot
  exact hij hslot

end HashCounter

variable {F : Type*} [Frame F] [DefaultHasher]

instance : LawfulHashable (UnresolvedFrames F) := ⟨fun _ _ => UnresolvedFrames.hash_eq_of_beq⟩

/-- **The representation of the hash counter.**  After any calls of `add` and
`clear`: buckets have at most four live entries, each in the bucket of its
hash; equal stacks hash equally, and no two live entries of the counter are of
equal stacks; and the iterator yields the live entries, once each and bucket by
bucket. -/
theorem HashCounter.represents (calls : List (Call (UnresolvedFrames F))) :
    (∀ i, ((calls.foldl HashCounter.call new).buckets i).length ≤ BUCKETS_ASSOCIATIVITY) ∧
    (∀ i, ∀ e ∈ ((calls.foldl HashCounter.call new).buckets i).iter,
      (i : ℕ) = (hash e.item).toNat % BUCKETS) ∧
    (∀ u v : UnresolvedFrames F, u == v → hash u = hash v) ∧
    (calls.foldl HashCounter.call new).iter.Pairwise (fun e e' => (e.item == e'.item) = false) ∧
    (calls.foldl HashCounter.call new).iterator.Yields
      ((List.finRange BUCKETS).flatMap fun i =>
        ((calls.foldl HashCounter.call new).buckets i).iter) := by
  have h : (calls.foldl HashCounter.call new).Represents := represents_new.run calls
  refine ⟨fun i => Bucket.length_le _, fun i e he => ?_, fun _ _ => UnresolvedFrames.hash_eq_of_beq,
    h.keysDistinct, iterator_yields _⟩
  rw [← h.placed i e he]
  rfl

end Pprof
