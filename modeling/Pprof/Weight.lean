/-
Weights of keyed lists.

A list of counted elements is read as a ledger: `weight key val k l` is the
sum of the values of the elements whose key is `k`.  Keys are compared by a
`BEq` that need only be an equivalence, as the `Eq` of a hash-map key is, so
different elements may count for one key.

* `weight_bump` — adding to the one element of a key adds to that key only;
* `tally` — the `get_mut`/`insert` step of a hash map of counters, with its
  effect on weights (`weight_tally`);
* `tallyAll` — counting a whole list into a hash map keeps every weight, as
  long as no sum overflows (`weight_tallyAll`);
* `sum_weight_eq_sum` — over distinct keys that cover a list, the weights add
  up to the sum of all values; so weights determine that sum
  (`sum_eq_of_weight_eq`), and the sum over the keys with a property
  (`sumWhere_eq_of_weight_eq`).
-/
import Mathlib

namespace Weight

variable {α κ : Type*} [BEq κ]

/-- The sum of the values of the elements of `l` whose key is `k`. -/
def weight (key : α → κ) (val : α → ℤ) (k : κ) (l : List α) : ℤ :=
  (l.map fun a => if key a == k then val a else 0).sum

/-- No two elements of `l` have the same key. -/
def KeysDistinct (key : α → κ) (l : List α) : Prop :=
  l.Pairwise fun a b => (key a == key b) = false

section Basic

variable {key : α → κ} {val : α → ℤ} {k : κ}

@[simp] theorem weight_nil : weight key val k [] = 0 := rfl

@[simp] theorem weight_cons (a : α) (l : List α) :
    weight key val k (a :: l) = (if key a == k then val a else 0) + weight key val k l := by
  simp [weight]

@[simp] theorem weight_append (l l' : List α) :
    weight key val k (l ++ l') = weight key val k l + weight key val k l' := by
  simp [weight]

theorem weight_perm {l l' : List α} (h : l.Perm l') :
    weight key val k l = weight key val k l' :=
  (h.map _).sum_eq

theorem weight_map {β : Type*} (f : β → α) (l : List β) :
    weight key val k (l.map f) = weight (fun b => key (f b)) (fun b => val (f b)) k l := by
  rw [weight, weight, List.map_map]
  rfl

/-- A weight is the sum over the elements of the key. -/
theorem sum_filter_key (l : List α) :
    ((l.filter fun a => key a == k).map val).sum = weight key val k l := by
  induction l with
  | nil => rfl
  | cons a l ih =>
    by_cases ha : key a == k
    · simp [ha, ih]
    · simp [ha, ih]

theorem weight_eq_zero {l : List α} (h : ∀ a ∈ l, (key a == k) = false) :
    weight key val k l = 0 := by
  induction l with
  | nil => rfl
  | cons a l ih =>
    rw [weight_cons, h a List.mem_cons_self, ih fun b hb => h b (List.mem_cons_of_mem _ hb)]
    rfl

theorem weight_nonneg {l : List α} (h : ∀ a ∈ l, 0 ≤ val a) : 0 ≤ weight key val k l := by
  refine List.sum_nonneg fun x hx => ?_
  obtain ⟨a, ha, rfl⟩ := List.mem_map.mp hx
  by_cases hk : key a == k
  · simpa [hk] using h a ha
  · simp [hk]

theorem weight_pos {l : List α} (h : ∀ a ∈ l, 0 < val a) (hk : ∃ a ∈ l, key a == k) :
    0 < weight key val k l := by
  induction l with
  | nil =>
    obtain ⟨a, ha, _⟩ := hk
    exact absurd ha List.not_mem_nil
  | cons a l ih =>
    obtain ⟨ha, hl⟩ := List.forall_mem_cons.mp h
    rw [weight_cons]
    by_cases hak : key a == k
    · have hrest : 0 ≤ weight key val k l := weight_nonneg fun b hb => (hl b hb).le
      rw [if_pos hak]
      omega
    · have hex : ∃ b ∈ l, key b == k := by
        obtain ⟨b, hb, hbk⟩ := hk
        obtain rfl | hb := List.mem_cons.mp hb
        · exact absurd hbk hak
        · exact ⟨b, hb, hbk⟩
      rw [if_neg hak, zero_add]
      exact ih hl hex

/-- No value exceeds the sum of values that are not negative. -/
theorem val_le_sum {l : List α} (h : ∀ a ∈ l, 0 ≤ val a) {a : α} (ha : a ∈ l) :
    val a ≤ (l.map val).sum := by
  refine List.single_le_sum (fun x hx => ?_) _ (List.mem_map_of_mem ha)
  obtain ⟨b, hb, rfl⟩ := List.mem_map.mp hx
  exact h b hb

end Basic

theorem weight_congr [EquivBEq κ] {key : α → κ} {val : α → ℤ} {k k' : κ} (h : k == k')
    (l : List α) : weight key val k l = weight key val k' l := by
  have hk : ∀ a, (key a == k) = (key a == k') := fun a => BEq.congr_right h
  simp only [weight, hk]

/-! ### Adding to the element of a key -/

section Bump

variable {key : α → κ} {val : α → ℤ} {k : κ} {n : ℤ}

/-- Where no element has the key, adding to the elements of the key changes
nothing. -/
theorem map_bump_of_absent (bump : α → α) {l : List α} (h : ∀ a ∈ l, (key a == k) = false) :
    (l.map fun a => if key a == k then bump a else a) = l := by
  refine (List.map_congr_left fun a ha => ?_).trans (List.map_id l)
  rw [h a ha]
  rfl

/-- Among elements with distinct keys, adding to those of the key `k` changes
the one that has it. -/
theorem bump_perm [EquivBEq κ] (bump : α → α) {l : List α} (hd : KeysDistinct key l) {a : α}
    (ha : a ∈ l) (hk : key a == k) :
    ∃ rest, l.Perm (a :: rest) ∧
      (l.map fun b => if key b == k then bump b else b).Perm (bump a :: rest) := by
  obtain ⟨s, t, rfl⟩ := List.append_of_mem ha
  obtain ⟨_, hat, hsa⟩ := List.pairwise_append.mp hd
  have hs : ∀ b ∈ s, (key b == k) = false := by
    intro b hb
    rw [← BEq.congr_right hk]
    exact hsa b hb a List.mem_cons_self
  have ht : ∀ b ∈ t, (key b == k) = false := by
    intro b hb
    rw [← BEq.congr_right hk, BEq.comm]
    exact (List.pairwise_cons.mp hat).1 b hb
  refine ⟨s ++ t, List.perm_middle, ?_⟩
  rw [List.map_append, List.map_cons, map_bump_of_absent bump hs, map_bump_of_absent bump ht,
    if_pos hk]
  exact List.perm_middle

/-- So adding `n` adds `n` to the weight of `k` and to no other weight. -/
theorem weight_bump [EquivBEq κ] (bump : α → α) {l : List α} (hd : KeysDistinct key l)
    (h : ∃ a ∈ l, key a == k) (hkey : ∀ a, key (bump a) = key a)
    (hval : ∀ a ∈ l, key a == k → val (bump a) = val a + n) (k' : κ) :
    weight key val k' (l.map fun a => if key a == k then bump a else a)
      = weight key val k' l + if k == k' then n else 0 := by
  obtain ⟨a, ha, hak⟩ := h
  obtain ⟨rest, hl, hmap⟩ := bump_perm bump hd ha hak
  have hk' : (key a == k') = (k == k') := BEq.congr_left hak
  rw [weight_perm hmap, weight_perm hl, weight_cons, weight_cons, hkey, hval a ha hak, hk']
  by_cases hkk : k == k'
  · rw [if_pos hkk, if_pos hkk, if_pos hkk]
    omega
  · rw [if_neg hkk, if_neg hkk, if_neg hkk]
    omega

theorem keysDistinct_bump (bump : α → α) {l : List α} (hd : KeysDistinct key l)
    (hkey : ∀ a, key (bump a) = key a) :
    KeysDistinct key (l.map fun a => if key a == k then bump a else a) := by
  have hkey' : ∀ a, key (if key a == k then bump a else a) = key a := fun a => by
    by_cases h : key a == k
    · rw [if_pos h, hkey]
    · rw [if_neg h]
  rw [KeysDistinct, List.pairwise_map]
  exact hd.imp fun {a b} hab => by rw [hkey', hkey', hab]

end Bump

/-! ### A hash map of counters -/

/-- One step of counting into a hash map: add to the value under `k` where
there is one, else insert the pair. -/
def tally (add : ℤ → ℤ → ℤ) (m : List (κ × ℤ)) (k : κ) (n : ℤ) : List (κ × ℤ) :=
  if m.any (·.1 == k) then
    m.map fun p => if p.1 == k then (p.1, add p.2 n) else p
  else m ++ [(k, n)]

section Tally

variable {add : ℤ → ℤ → ℤ} {m : List (κ × ℤ)} {k : κ} {n : ℤ}

theorem keysDistinct_tally (hd : KeysDistinct Prod.fst m) (k : κ) (n : ℤ) :
    KeysDistinct Prod.fst (tally add m k n) := by
  rw [tally]
  by_cases h : m.any (·.1 == k)
  · rw [if_pos h]
    exact keysDistinct_bump (fun p => (p.1, add p.2 n)) hd fun _ => rfl
  · rw [if_neg h]
    refine List.pairwise_append.mpr ⟨hd, List.pairwise_singleton _ _, fun a ha b hb => ?_⟩
    rw [List.mem_singleton.mp hb]
    by_contra hc
    exact h (List.any_eq_true.mpr ⟨a, ha, by simpa using hc⟩)

/-- Counting `n` under `k` adds `n` to the weight of `k` and to no other. -/
theorem weight_tally [EquivBEq κ] (hd : KeysDistinct Prod.fst m)
    (hadd : ∀ p ∈ m, p.1 == k → add p.2 n = p.2 + n) (k' : κ) :
    weight Prod.fst Prod.snd k' (tally add m k n)
      = weight Prod.fst Prod.snd k' m + if k == k' then n else 0 := by
  rw [tally]
  by_cases h : m.any (·.1 == k)
  · rw [if_pos h]
    obtain ⟨p, hp, hpk⟩ := List.any_eq_true.mp h
    exact weight_bump (fun p => (p.1, add p.2 n)) hd ⟨p, hp, hpk⟩ (fun _ => rfl) hadd k'
  · rw [if_neg h, weight_append, weight_cons, weight_nil, add_zero]

/-- What a step leaves: pairs as they were, the pair that was added to, or the
pair that was inserted. -/
theorem mem_tally {p : κ × ℤ} (h : p ∈ tally add m k n) :
    p ∈ m ∨ (∃ q ∈ m, q.1 == k ∧ p = (q.1, add q.2 n)) ∨ p = (k, n) := by
  rw [tally] at h
  by_cases ha : m.any (·.1 == k)
  · rw [if_pos ha] at h
    obtain ⟨q, hq, rfl⟩ := List.mem_map.mp h
    by_cases hk : q.1 == k
    · exact .inr (.inl ⟨q, hq, hk, by rw [if_pos hk]⟩)
    · rw [if_neg hk]
      exact .inl hq
  · rw [if_neg ha] at h
    obtain h | h := List.mem_append.mp h
    · exact .inl h
    · exact .inr (.inr (List.mem_singleton.mp h))

/-- The keys after a step are those before it and the key that was counted. -/
theorem mem_tally_key [EquivBEq κ] {k' : κ} (h : (∃ p ∈ m, p.1 == k') ∨ k == k') :
    ∃ p ∈ tally add m k n, p.1 == k' := by
  rw [tally]
  by_cases ha : m.any (·.1 == k)
  · rw [if_pos ha]
    -- the key is there already, under a key equal to it or as the one asked for
    have hex : ∃ p ∈ m, p.1 == k' := by
      obtain h | h := h
      · exact h
      · obtain ⟨p, hp, hpk⟩ := List.any_eq_true.mp ha
        exact ⟨p, hp, BEq.trans hpk h⟩
    obtain ⟨p, hp, hpk⟩ := hex
    refine ⟨_, List.mem_map_of_mem hp, ?_⟩
    by_cases hk : p.1 == k
    · rw [if_pos hk]
      exact hpk
    · rw [if_neg hk]
      exact hpk
  · rw [if_neg ha]
    obtain ⟨p, hp, hpk⟩ | h := h
    · exact ⟨p, List.mem_append_left _ hp, hpk⟩
    · exact ⟨(k, n), List.mem_append_right _ (List.mem_singleton_self _), h⟩

end Tally

/-! ### Distinct keys that cover a list -/

/-- Among distinct keys one, and only one, is that of `k`. -/
theorem sum_ite_key [EquivBEq κ] {ks : List κ} (hd : KeysDistinct id ks) {k : κ} (n : ℤ)
    (hk : ∃ k' ∈ ks, k' == k) : (ks.map fun k' => if k == k' then n else 0).sum = n := by
  induction ks with
  | nil =>
    obtain ⟨k', hk', _⟩ := hk
    exact absurd hk' List.not_mem_nil
  | cons k₀ ks ih =>
    obtain ⟨hk₀, hd'⟩ := List.pairwise_cons.mp hd
    rw [List.map_cons, List.sum_cons]
    by_cases h : k == k₀
    · -- the first key is the one: the others are different from it
      have hrest : (ks.map fun k' => if k == k' then n else 0) = ks.map fun _ => 0 := by
        refine List.map_congr_left fun k' hk' => ?_
        rw [if_neg]
        rw [BEq.congr_left h]
        simpa using hk₀ k' hk'
      rw [if_pos h, hrest, List.map_const', List.sum_replicate, smul_zero, add_zero]
    · have hex : ∃ k' ∈ ks, k' == k := by
        obtain ⟨k', hk', hkk⟩ := hk
        obtain rfl | hk' := List.mem_cons.mp hk'
        · exact absurd (BEq.symm hkk) h
        · exact ⟨k', hk', hkk⟩
      rw [if_neg h, ih hd' hex, zero_add]

/-- Over distinct keys that cover the keys of `l`, the weights of `l` add up
to the sum of all its values. -/
theorem sum_weight_eq_sum [EquivBEq κ] {key : α → κ} {val : α → ℤ} {ks : List κ} {l : List α}
    (hd : KeysDistinct id ks) (hc : ∀ a ∈ l, ∃ k ∈ ks, k == key a) :
    (ks.map fun k => weight key val k l).sum = (l.map val).sum := by
  induction l with
  | nil => simp
  | cons a l ih =>
    simp only [weight_cons, List.sum_map_add, List.map_cons, List.sum_cons]
    rw [sum_ite_key hd (val a) (hc a List.mem_cons_self),
      ih fun b hb => hc b (List.mem_cons_of_mem _ hb)]

theorem exists_cover (key : α → κ) [EquivBEq κ] (l : List α) :
    ∃ ks : List κ, KeysDistinct id ks ∧ ∀ a ∈ l, ∃ k ∈ ks, k == key a := by
  induction l with
  | nil => exact ⟨[], List.Pairwise.nil, fun a ha => absurd ha List.not_mem_nil⟩
  | cons a l ih =>
    obtain ⟨ks, hd, hc⟩ := ih
    by_cases h : ks.any (· == key a)
    · refine ⟨ks, hd, fun b hb => ?_⟩
      obtain rfl | hb := List.mem_cons.mp hb
      · exact List.any_eq_true.mp h
      · exact hc b hb
    · have hnew : ∀ k ∈ ks, (key a == k) = false := by
        simpa [BEq.comm] using h
      refine ⟨key a :: ks, List.pairwise_cons.mpr ⟨hnew, hd⟩, fun b hb => ?_⟩
      obtain rfl | hb := List.mem_cons.mp hb
      · exact ⟨key b, List.mem_cons_self, BEq.rfl⟩
      · obtain ⟨k, hk, hkb⟩ := hc b hb
        exact ⟨k, List.mem_cons_of_mem _ hk, hkb⟩

/-- Elements of distinct keys need as many keys to cover them. -/
theorem length_le_of_cover [EquivBEq κ] {key : α → κ} {l : List α} (hd : KeysDistinct key l) :
    ∀ {ks : List κ}, (∀ a ∈ l, ∃ k ∈ ks, k == key a) → l.length ≤ ks.length := by
  induction l with
  | nil => exact fun _ => Nat.zero_le _
  | cons a l ih =>
    intro ks hc
    obtain ⟨ha, hd'⟩ := List.pairwise_cons.mp hd
    obtain ⟨k, hk, hka⟩ := hc a List.mem_cons_self
    obtain ⟨s, t, rfl⟩ := List.append_of_mem hk
    -- the key that covers `a` covers no other element
    have hrest : ∀ b ∈ l, ∃ k' ∈ s ++ t, k' == key b := by
      intro b hb
      obtain ⟨k', hk', hkb⟩ := hc b (List.mem_cons_of_mem _ hb)
      refine ⟨k', ?_, hkb⟩
      rcases List.mem_append.mp hk' with hk' | hk'
      · exact List.mem_append_left _ hk'
      · rcases List.mem_cons.mp hk' with rfl | hk'
        · have hab := BEq.trans (BEq.symm hka) hkb
          rw [ha b hb] at hab
          cases hab
        · exact List.mem_append_right _ hk'
    have hlen := ih hd' hrest
    simp only [List.length_append, List.length_cons] at hlen ⊢
    omega

/-- The weights of a list determine the sum of its values. -/
theorem sum_eq_of_weight_eq [EquivBEq κ] {key : α → κ} {val : α → ℤ} {l l' : List α}
    (h : ∀ k, weight key val k l = weight key val k l') :
    (l.map val).sum = (l'.map val).sum := by
  obtain ⟨ks, hd, hc⟩ := exists_cover key (l ++ l')
  rw [← sum_weight_eq_sum hd fun a ha => hc a (List.mem_append_left _ ha),
    ← sum_weight_eq_sum hd fun a ha => hc a (List.mem_append_right _ ha)]
  simp only [h]

/-- Among distinct keys the weight of a key is the value of its one element. -/
theorem weight_eq_of_mem [EquivBEq κ] {key : α → κ} {val : α → ℤ} {l : List α} {a : α}
    (hd : KeysDistinct key l) (ha : a ∈ l) : weight key val (key a) l = val a := by
  induction l with
  | nil => exact absurd ha List.not_mem_nil
  | cons b l ih =>
    obtain ⟨hb, hd'⟩ := List.pairwise_cons.mp hd
    rw [weight_cons]
    obtain rfl | ha := List.mem_cons.mp ha
    · have hrest : weight key val (key a) l = 0 := by
        refine weight_eq_zero fun c hc => ?_
        rw [BEq.comm]
        exact hb c hc
      rw [if_pos BEq.rfl, hrest, add_zero]
    · rw [if_neg (by simp [hb a ha]), ih hd' ha, zero_add]

/-! ### Counting a whole list -/

/-- Counting a list of pairs into an empty hash map. -/
def tallyAll (add : ℤ → ℤ → ℤ) (l : List (κ × ℤ)) : List (κ × ℤ) :=
  l.foldl (fun m p => tally add m p.1 p.2) []

theorem keysDistinct_tallyAll (add : ℤ → ℤ → ℤ) (l : List (κ × ℤ)) :
    KeysDistinct Prod.fst (tallyAll add l) := by
  have hfold : ∀ (l m : List (κ × ℤ)), KeysDistinct Prod.fst m →
      KeysDistinct Prod.fst (l.foldl (fun m p => tally add m p.1 p.2) m) := by
    intro l
    induction l with
    | nil => exact fun m hm => hm
    | cons p l ih => exact fun m hm => ih _ (keysDistinct_tally hm p.1 p.2)
  exact hfold l [] List.Pairwise.nil

/-- The keys of the hash map cover those of the list. -/
theorem mem_tallyAll_key [EquivBEq κ] (add : ℤ → ℤ → ℤ) {l : List (κ × ℤ)} {p : κ × ℤ}
    (hp : p ∈ l) : ∃ q ∈ tallyAll add l, q.1 == p.1 := by
  have hfold : ∀ (l m : List (κ × ℤ)), ((∃ q ∈ m, q.1 == p.1) ∨ p ∈ l) →
      ∃ q ∈ l.foldl (fun m p => tally add m p.1 p.2) m, q.1 == p.1 := by
    intro l
    induction l with
    | nil =>
      intro m h
      obtain h | h := h
      · exact h
      · exact absurd h List.not_mem_nil
    | cons a l ih =>
      intro m h
      refine ih _ ?_
      obtain h | h := h
      · exact .inl (mem_tally_key (.inl h))
      · obtain rfl | h := List.mem_cons.mp h
        · exact .inl (mem_tally_key (.inr BEq.rfl))
        · exact .inr h
  exact hfold l [] (.inr hp)

section NoOverflow

variable [EquivBEq κ] {add : ℤ → ℤ → ℤ} {bound : ℤ}

theorem sum_tally {m : List (κ × ℤ)} {k : κ} {n : ℤ} (hd : KeysDistinct Prod.fst m)
    (hadd : ∀ p ∈ m, p.1 == k → add p.2 n = p.2 + n) :
    ((tally add m k n).map Prod.snd).sum = (m.map Prod.snd).sum + n := by
  have hweight : ∀ k', weight Prod.fst Prod.snd k' (tally add m k n)
      = weight Prod.fst Prod.snd k' ((k, n) :: m) := by
    intro k'
    rw [weight_tally hd hadd, weight_cons, add_comm]
  rw [sum_eq_of_weight_eq hweight, List.map_cons, List.sum_cons, add_comm]

/-- Counting a list into a hash map adds its weights, where the addition is that
of the integers for sums of at most `bound` and there is no more to count. -/
theorem weight_foldl_tally (hadd : ∀ a b, 0 ≤ a → 0 ≤ b → a + b ≤ bound → add a b = a + b)
    {l m : List (κ × ℤ)} (hd : KeysDistinct Prod.fst m) (hm : ∀ p ∈ m, 0 ≤ p.2)
    (hl : ∀ p ∈ l, 0 ≤ p.2) (hsum : (m.map Prod.snd).sum + (l.map Prod.snd).sum ≤ bound) (k : κ) :
    weight Prod.fst Prod.snd k (l.foldl (fun m p => tally add m p.1 p.2) m)
      = weight Prod.fst Prod.snd k m + weight Prod.fst Prod.snd k l := by
  induction l generalizing m with
  | nil => rw [List.foldl_nil, weight_nil, add_zero]
  | cons p l ih =>
    obtain ⟨hp, hl⟩ := List.forall_mem_cons.mp hl
    rw [List.map_cons, List.sum_cons] at hsum
    have hrest : 0 ≤ (l.map Prod.snd).sum := by
      refine List.sum_nonneg fun x hx => ?_
      obtain ⟨q, hq, rfl⟩ := List.mem_map.mp hx
      exact hl q hq
    -- no single value exceeds the sum, so this addition does not overflow
    have hadd' : ∀ q ∈ m, add q.2 p.2 = q.2 + p.2 := by
      intro q hq
      have hle : q.2 ≤ (m.map Prod.snd).sum := val_le_sum hm hq
      exact hadd _ _ (hm q hq) hp (by omega)
    have hm' : ∀ q ∈ tally add m p.1 p.2, 0 ≤ q.2 := by
      intro q hq
      obtain hq | ⟨r, hr, _, rfl⟩ | rfl := mem_tally hq
      · exact hm q hq
      · rw [hadd' r hr]
        exact add_nonneg (hm r hr) hp
      · exact hp
    have hsum' : ((tally add m p.1 p.2).map Prod.snd).sum + (l.map Prod.snd).sum ≤ bound := by
      rw [sum_tally hd fun q hq _ => hadd' q hq]
      omega
    rw [List.foldl_cons, ih (keysDistinct_tally hd _ _) hm' hl hsum',
      weight_tally hd fun q hq _ => hadd' q hq, weight_cons]
    omega

/-- **Counting keeps every weight** of a list whose sum does not overflow. -/
theorem weight_tallyAll (hadd : ∀ a b, 0 ≤ a → 0 ≤ b → a + b ≤ bound → add a b = a + b)
    {l : List (κ × ℤ)} (hpos : ∀ p ∈ l, 0 ≤ p.2) (hsum : (l.map Prod.snd).sum ≤ bound) (k : κ) :
    weight Prod.fst Prod.snd k (tallyAll add l) = weight Prod.fst Prod.snd k l := by
  have hnone : ∀ p ∈ ([] : List (κ × ℤ)), 0 ≤ p.2 := fun p hp => absurd hp List.not_mem_nil
  rw [tallyAll, weight_foldl_tally hadd List.Pairwise.nil hnone hpos (by simpa using hsum),
    weight_nil, zero_add]

end NoOverflow

/-- Every key of the hash map was counted. -/
theorem key_of_mem_tallyAll (add : ℤ → ℤ → ℤ) {l : List (κ × ℤ)} {p : κ × ℤ}
    (hp : p ∈ tallyAll add l) : ∃ q ∈ l, q.1 = p.1 := by
  have hfold : ∀ (l m : List (κ × ℤ)), p ∈ l.foldl (fun m p => tally add m p.1 p.2) m →
      (∃ q ∈ m, q.1 = p.1) ∨ ∃ q ∈ l, q.1 = p.1 := by
    intro l
    induction l with
    | nil => exact fun m h => .inl ⟨p, h, rfl⟩
    | cons a l ih =>
      intro m h
      obtain ⟨q, hq, hqp⟩ | ⟨q, hq, hqp⟩ := ih _ h
      · obtain hq | ⟨r, hr, _, rfl⟩ | rfl := mem_tally hq
        · exact .inl ⟨q, hq, hqp⟩
        · exact .inl ⟨r, hr, hqp⟩
        · exact .inr ⟨a, List.mem_cons_self, hqp⟩
      · exact .inr ⟨q, List.mem_cons_of_mem a hq, hqp⟩
  exact (hfold l [] hp).resolve_left fun ⟨q, hq, _⟩ => List.not_mem_nil hq

/-- Looking a key up in a hash map finds its weight. -/
theorem find?_key [EquivBEq κ] {m : List (κ × ℤ)} (hd : KeysDistinct Prod.fst m) (k : κ) :
    (m.find? (·.1 == k)).map Prod.snd
      = if m.any (·.1 == k) then some (weight Prod.fst Prod.snd k m) else none := by
  cases hfind : m.find? (·.1 == k) with
  | none =>
    rw [if_neg]
    · rfl
    · simpa using List.find?_eq_none.mp hfind
  | some p =>
    have hkey : p.1 == k := by simpa using List.find?_some hfind
    have hmem := List.mem_of_find?_eq_some hfind
    rw [if_pos (List.any_eq_true.mpr ⟨p, hmem, hkey⟩), ← weight_congr hkey,
      weight_eq_of_mem hd hmem]
    rfl

/-! ### Keys with a property -/

section SumWhere

variable {key : α → κ} {val : α → ℤ} {P : κ → Bool}

/-- The sum of the values of the elements whose key has the property `P`. -/
def sumWhere (key : α → κ) (val : α → ℤ) (P : κ → Bool) (l : List α) : ℤ :=
  ((l.filter fun a => P (key a)).map val).sum

omit [BEq κ] in
theorem sumWhere_cons (a : α) (l : List α) :
    sumWhere key val P (a :: l) = (if P (key a) then val a else 0) + sumWhere key val P l := by
  by_cases ha : P (key a)
  · simp [sumWhere, ha]
  · simp [sumWhere, ha]

omit [BEq κ] in
theorem sumWhere_perm {l l' : List α} (h : l.Perm l') :
    sumWhere key val P l = sumWhere key val P l' :=
  ((h.filter _).map val).sum_eq

/-- The weight of a key among the elements with a property of keys. -/
theorem weight_filter (hP : ∀ a b : κ, a == b → P a = P b) (k : κ) (l : List α) :
    weight key val k (l.filter fun a => P (key a)) = if P k then weight key val k l else 0 := by
  induction l with
  | nil => simp
  | cons a l ih =>
    by_cases hk : key a == k
    · have hPa := hP _ _ hk
      by_cases hPk : P k
      · simp_all
      · simp_all
    · by_cases hPa : P (key a)
      · simp_all
      · simp_all

/-- Weights determine the sum over a property of keys. -/
theorem sumWhere_eq_of_weight_eq [EquivBEq κ] {l l' : List α}
    (hP : ∀ a b : κ, a == b → P a = P b)
    (h : ∀ k, weight key val k l = weight key val k l') :
    sumWhere key val P l = sumWhere key val P l' :=
  sum_eq_of_weight_eq fun k => by rw [weight_filter hP, weight_filter hP, h]

omit [BEq κ] in
theorem sumWhere_congr {P' : κ → Bool} {l : List α} (h : ∀ a ∈ l, P (key a) = P' (key a)) :
    sumWhere key val P l = sumWhere key val P' l := by
  rw [sumWhere, sumWhere, List.filter_congr h]

/-- The same where the property is one of classes among the keys that occur. -/
theorem sumWhere_eq_of_weight_eq_on [EquivBEq κ] {l l' : List α}
    (hmem : ∀ a ∈ l, ∃ b ∈ l', key b = key a)
    (hP : ∀ a ∈ l', ∀ b ∈ l', key a == key b → P (key a) = P (key b))
    (h : ∀ k, weight key val k l = weight key val k l') :
    sumWhere key val P l = sumWhere key val P l' := by
  -- the classes of the keys that have the property
  let Q : κ → Bool := fun k => l'.any fun b => key b == k && P (key b)
  have hQ : ∀ k k' : κ, k == k' → Q k = Q k' := by
    intro k k' hk
    show l'.any _ = l'.any _
    simp only [BEq.congr_right hk]
  have hPQ : ∀ b ∈ l', P (key b) = Q (key b) := by
    intro b hb
    refine Bool.eq_iff_iff.mpr ⟨fun hPb => ?_, fun hQb => ?_⟩
    · exact List.any_eq_true.mpr ⟨b, hb, by rw [hPb, BEq.rfl, Bool.and_self]⟩
    · obtain ⟨a, ha, hab⟩ := List.any_eq_true.mp hQb
      obtain ⟨hab, hPa⟩ := Bool.and_eq_true_iff.mp hab
      rw [← hP a ha b hb hab, hPa]
  have hl : ∀ a ∈ l, P (key a) = Q (key a) := by
    intro a ha
    obtain ⟨b, hb, hba⟩ := hmem a ha
    rw [← hba, hPQ b hb]
  rw [sumWhere_congr hl, sumWhere_eq_of_weight_eq hQ h, sumWhere_congr hPQ]

end SumWhere

end Weight
