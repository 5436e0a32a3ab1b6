/-
Tables that intern by a key.

A table is a list of rows, no two of the same key; a row is added when its key
is not there yet (`add`), and what refers to a key uses its position (`index`).
Tables only grow at the end, so positions are stable: `index_stable` lets a
reference that was made while the table was being filled be read in the
finished table.

* `exists_row` — the row at the position of a key has this key;
* `mem_keys_addAll` — the finished table has the keys of all that was added;
* `mem_of_mem_addAll` — a row is the first of its key that was added;
* `index_getElem` — keys and positions correspond in the finished table;
* `find?_mapIdx` — rows that carry their position are found by it.
-/
import Mathlib

namespace Interner

variable {α β κ : Type*} [DecidableEq κ]

/-- Add a row unless its key is there. -/
def add (key : α → κ) (t : List α) (a : α) : List α :=
  if key a ∈ t.map key then t else t ++ [a]

/-- Add rows in order. -/
def addAll (key : α → κ) (t l : List α) : List α := l.foldl (add key) t

/-- The position of a key. -/
def index (key : α → κ) (t : List α) (k : κ) : ℕ := (t.map key).idxOf k

variable {key : α → κ} {t : List α}

theorem add_of_mem {a : α} (h : key a ∈ t.map key) : add key t a = t := if_pos h

theorem add_of_not_mem {a : α} (h : key a ∉ t.map key) : add key t a = t ++ [a] := if_neg h

theorem prefix_add (key : α → κ) (t : List α) (a : α) : t <+: add key t a := by
  by_cases h : key a ∈ t.map key
  · rw [add_of_mem h]
  · rw [add_of_not_mem h]
    exact List.prefix_append t [a]

theorem addAll_cons (t : List α) (a : α) (l : List α) :
    addAll key t (a :: l) = addAll key (add key t a) l := rfl

theorem addAll_append (t l l' : List α) :
    addAll key t (l ++ l') = addAll key (addAll key t l) l' := List.foldl_append

theorem prefix_addAll (key : α → κ) (t l : List α) : t <+: addAll key t l := by
  induction l generalizing t with
  | nil => exact List.prefix_rfl
  | cons a l ih => exact (prefix_add key t a).trans (ih (add key t a))

theorem mem_keys_add (a : α) (k : κ) :
    k ∈ (add key t a).map key ↔ k ∈ t.map key ∨ k = key a := by
  by_cases h : key a ∈ t.map key
  · rw [add_of_mem h]
    constructor
    · exact .inl
    · rintro (hk | rfl)
      · exact hk
      · exact h
  · rw [add_of_not_mem h, List.map_append, List.mem_append, List.map_singleton, List.mem_singleton]

/-- The keys of the finished table. -/
theorem mem_keys_addAll (l : List α) (k : κ) :
    k ∈ (addAll key t l).map key ↔ k ∈ t.map key ∨ k ∈ l.map key := by
  induction l generalizing t with
  | nil => simp [addAll]
  | cons a l ih => rw [addAll_cons, ih, mem_keys_add, List.map_cons, List.mem_cons, or_assoc]

/-- Every row was added. -/
theorem mem_of_mem_addAll {l : List α} {a : α} (h : a ∈ addAll key t l) : a ∈ t ∨ a ∈ l := by
  induction l generalizing t with
  | nil => exact .inl h
  | cons b l ih =>
    obtain h | h := ih h
    · by_cases hb : key b ∈ t.map key
      · rw [add_of_mem hb] at h
        exact .inl h
      · rw [add_of_not_mem hb, List.mem_append, List.mem_singleton] at h
        obtain h | rfl := h
        · exact .inl h
        · exact .inr List.mem_cons_self
    · exact .inr (List.mem_cons_of_mem b h)

/-- A table has one row for each key. -/
theorem nodup_keys_addAll (l : List α) (h : (t.map key).Nodup) :
    ((addAll key t l).map key).Nodup := by
  induction l generalizing t with
  | nil => exact h
  | cons a l ih =>
    rw [addAll_cons]
    refine ih ?_
    by_cases ha : key a ∈ t.map key
    · rwa [add_of_mem ha]
    · rw [add_of_not_mem ha, List.map_append, List.map_singleton, ← List.concat_eq_append]
      exact h.concat ha

theorem index_lt {k : κ} (h : k ∈ t.map key) : index key t k < t.length := by
  have hlt := List.idxOf_lt_length_of_mem h
  rwa [List.length_map] at hlt

/-- The row at the position of a key has this key. -/
theorem exists_row {k : κ} (h : k ∈ t.map key) :
    ∃ a, t[index key t k]? = some a ∧ key a = k := by
  have hlt := index_lt h
  refine ⟨t[index key t k], List.getElem?_eq_getElem hlt, ?_⟩
  have hrow := List.getElem_idxOf (List.idxOf_lt_length_of_mem h)
  rwa [List.getElem_map] at hrow

/-- Positions are stable while the table grows. -/
theorem index_stable {t t' : List α} (ht : t <+: t') {k : κ} (h : k ∈ t.map key) :
    index key t' k = index key t k := by
  obtain ⟨l, rfl⟩ := ht
  rw [index, index, List.map_append, List.idxOf_append_of_mem h]

theorem index_add_self (a : α) (h : key a ∉ t.map key) :
    index key (add key t a) (key a) = t.length := by
  rw [add_of_not_mem h, index, List.map_append, List.idxOf_append_of_notMem h, List.map_singleton,
    List.idxOf_cons_self, List.length_map, Nat.add_zero]

/-- In a table with one row for each key the position of a row is that of its
key. -/
theorem index_getElem (h : (t.map key).Nodup) {i : ℕ} (hi : i < t.length) :
    index key t (key t[i]) = i := by
  have hrow := h.idxOf_getElem i (by rwa [List.length_map])
  rwa [List.getElem_map] at hrow

omit [DecidableEq κ] in
/-- The numbers of rows that carry theirs. -/
theorem numbers_mapIdx (f : ℕ → α → β) (number : β → ℕ) {n : ℕ}
    (h : ∀ i a, number (f i a) = i + n) (l : List α) :
    (l.mapIdx f).map number = List.range' n l.length := by
  refine List.ext_getElem (by simp) fun i _ _ => ?_
  simp [h, Nat.add_comm]

omit [DecidableEq κ] in
/-- A number of the range names one row. -/
theorem countP_number {l : List α} {number : α → ℕ} {n m j : ℕ}
    (h : l.map number = List.range' n m) (hj : j < m) : l.countP (number · == j + n) = 1 := by
  have hcount : (l.map number).count (j + n) = 1 := by
    rw [h]
    refine List.count_eq_one_of_mem (List.nodup_range' 1) (List.mem_range'.mpr ⟨j, hj, ?_⟩)
    omega
  rwa [List.count, List.countP_map] at hcount

/-- Rows that carry their number are found by it; the first has number `n`. -/
theorem find?_mapIdx (f : ℕ → α → β) (number : β → ℕ) {n : ℕ}
    (h : ∀ i a, number (f i a) = i + n) (l : List α) (j : ℕ) :
    (l.mapIdx f).find? (fun b => number b == j + n) = l[j]?.map (f j) := by
  induction l generalizing f n j with
  | nil => rfl
  | cons a l ih =>
    rw [List.mapIdx_cons, List.find?_cons]
    cases j with
    | zero => simp [h]
    | succ j =>
      have hne : (number (f 0 a) == j + 1 + n) = false := by
        rw [h, beq_eq_false_iff_ne]
        omega
      have hnext : ∀ i b, number (f (i + 1) b) = i + (n + 1) := fun i b => by
        rw [h]
        omega
      have hnumber : j + 1 + n = j + (n + 1) := by omega
      rw [hne, List.getElem?_cons_succ, hnumber]
      exact ih _ hnext j

end Interner
