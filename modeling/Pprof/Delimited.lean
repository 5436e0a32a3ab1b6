/-
Texts cut at a separator.

A text is a list of characters; `List.splitOn` cuts it at every separator and
`rsplitOnce` at the last one.

* `splitOn_intercalate_iff` — joined pieces are cut where they were joined
  exactly when no piece contains the separator;
* `rsplitOnce_append` — what follows the last separator.
-/
import Mathlib

namespace Delimited

variable {α : Type*} {c : α}

/-- No piece contains a separator. -/
theorem not_mem_of_mem_splitOnP {p : α → Bool} {xs s : List α} (h : s ∈ xs.splitOnP p) :
    ∀ x ∈ s, p x = false := by
  induction xs generalizing s with
  | nil =>
    rw [List.splitOnP_nil, List.mem_singleton] at h
    rw [h]
    exact List.forall_mem_nil _
  | cons x xs ih =>
    rw [List.splitOnP_cons_eq_if_modifyHead] at h
    by_cases hx : p x = true
    · rw [if_pos hx, List.mem_cons] at h
      obtain rfl | h := h
      · exact List.forall_mem_nil _
      · exact ih h
    · rw [if_neg hx] at h
      obtain ⟨first, rest, hsplit⟩ := List.exists_cons_of_ne_nil (List.splitOnP_ne_nil p xs)
      rw [hsplit, List.modifyHead_cons, List.mem_cons] at h
      obtain rfl | h := h
      · -- the first piece has grown by `x`
        have hfirst : ∀ y ∈ first, p y = false := ih (hsplit ▸ List.mem_cons_self)
        exact List.forall_mem_cons.mpr ⟨Bool.eq_false_of_not_eq_true hx, hfirst⟩
      · exact ih (hsplit ▸ List.mem_cons_of_mem first h)

variable [BEq α] [LawfulBEq α]

theorem not_mem_of_mem_splitOn {xs s : List α} (h : s ∈ xs.splitOn c) : c ∉ s := by
  rw [List.splitOn_eq_splitOnP] at h
  intro hc
  have hne := not_mem_of_mem_splitOnP h c hc
  rw [beq_self_eq_true] at hne
  cases hne

/-- Joined pieces can be told apart exactly when none contains the separator. -/
theorem splitOn_intercalate_iff {l : List (List α)} (hl : l ≠ []) :
    ([c].intercalate l).splitOn c = l ↔ ∀ s ∈ l, c ∉ s := by
  constructor
  · intro h s hs
    rw [← h] at hs
    exact not_mem_of_mem_splitOn hs
  · intro h
    exact List.splitOn_intercalate c h hl

variable [DecidableEq α]

/-- What is before and after the last separator. -/
def rsplitOnce (c : α) : List α → Option (List α × List α)
  | [] => none
  | x :: xs =>
    match rsplitOnce c xs with
    | some (before, after) => some (x :: before, after)
    | none => if x = c then some ([], xs) else none

omit [BEq α] [LawfulBEq α] in
theorem rsplitOnce_eq_none {xs : List α} (h : c ∉ xs) : rsplitOnce c xs = none := by
  induction xs with
  | nil => rfl
  | cons x xs ih =>
    rw [List.mem_cons, not_or] at h
    rw [rsplitOnce, ih h.2]
    exact if_neg (Ne.symm h.1)

omit [BEq α] [LawfulBEq α] in
theorem rsplitOnce_append (xs : List α) {ys : List α} (h : c ∉ ys) :
    rsplitOnce c (xs ++ c :: ys) = some (xs, ys) := by
  induction xs with
  | nil =>
    rw [List.nil_append, rsplitOnce, rsplitOnce_eq_none h]
    exact if_pos rfl
  | cons x xs ih => rw [List.cons_append, rsplitOnce, ih]

end Delimited
