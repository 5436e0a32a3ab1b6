/-
A loop that skips.

`sweep` goes through a list, leaves out what is to be dropped, and at a marked
element leaves out this one and the next.  `mask` says of every position
whether its element is kept.

* `sweep_eq_select` — what is kept, by position;
* `mask_getElem` — which positions are kept;
* `sweep_of_unmarked` — without marked elements only what is dropped is missing.
-/
import Mathlib

namespace Skipping

variable {α : Type*}

/-- The elements at the positions that are kept. -/
def select (kept : List Bool) (l : List α) : List α :=
  ((l.zip kept).filter Prod.snd).map Prod.fst

theorem select_cons (b : Bool) (kept : List Bool) (a : α) (l : List α) :
    select (b :: kept) (a :: l) = if b then a :: select kept l else select kept l := by
  cases b with
  | true => rfl
  | false => rfl

theorem select_sublist (kept : List Bool) (l : List α) : (select kept l).Sublist l := by
  induction l generalizing kept with
  | nil => exact List.Sublist.refl _
  | cons a l ih =>
    cases kept with
    | nil => exact List.nil_sublist _
    | cons b kept =>
      rw [select_cons]
      split
      · exact (ih kept).cons_cons a
      · exact (ih kept).cons a

theorem exists_of_mem_select {kept : List Bool} {l : List α} {a : α} (h : a ∈ select kept l) :
    ∃ i : ℕ, l[i]? = some a ∧ kept[i]? = some true := by
  obtain ⟨⟨a', b⟩, hmem, rfl⟩ := List.mem_map.mp h
  obtain ⟨hzip, rfl⟩ : (a', b) ∈ l.zip kept ∧ b = true := List.mem_filter.mp hmem
  obtain ⟨i, hi⟩ := List.mem_iff_getElem?.mp hzip
  exact ⟨i, List.getElem?_zip_eq_some.mp hi⟩

variable (marked dropped : α → Bool)

/-- The loop. -/
def sweep : List α → List α
  | [] => []
  | a :: l =>
    if marked a then
      match l with
      | [] => []
      | _ :: l => sweep l
    else if dropped a then sweep l
    else a :: sweep l

/-- Whether the loop keeps the element at each position. -/
def mask : List α → List Bool
  | [] => []
  | a :: l =>
    if marked a then
      match l with
      | [] => [false]
      | _ :: l => false :: false :: mask l
    else (!dropped a) :: mask l

variable {marked dropped}

theorem sweep_of_marked {a : α} (h : marked a = true) (b : α) (l : List α) :
    sweep marked dropped (a :: b :: l) = sweep marked dropped l := by
  rw [sweep, if_pos h]

theorem mask_of_marked {a : α} (h : marked a = true) (b : α) (l : List α) :
    mask marked dropped (a :: b :: l) = false :: false :: mask marked dropped l := by
  rw [mask, if_pos h]

theorem mask_of_unmarked {a : α} (h : marked a = false) (l : List α) :
    mask marked dropped (a :: l) = (!dropped a) :: mask marked dropped l := by
  cases l with
  | nil => simp [mask, h]
  | cons b l => simp [mask, h]

theorem sweep_of_unmarked_cons {a : α} (h : marked a = false) (l : List α) :
    sweep marked dropped (a :: l)
      = if dropped a then sweep marked dropped l else a :: sweep marked dropped l := by
  cases l with
  | nil => simp [sweep, h]
  | cons b l => simp [sweep, h]

/-- The loop keeps what the mask says. -/
theorem sweep_eq_select (l : List α) :
    sweep marked dropped l = select (mask marked dropped l) l ∧
      (mask marked dropped l).length = l.length := by
  -- two elements go at once where the first is marked
  induction hn : l.length using Nat.strong_induction_on generalizing l with
  | _ n ih =>
    cases l with
    | nil => exact ⟨rfl, hn⟩
    | cons a l =>
      rw [List.length_cons] at hn
      cases hmarked : marked a with
      | true =>
        cases l with
        | nil => simp [sweep, mask, hmarked, select, ← hn]
        | cons b l =>
          rw [List.length_cons] at hn
          obtain ⟨hsweep, hlength⟩ := ih l.length (by omega) l rfl
          rw [sweep_of_marked hmarked, mask_of_marked hmarked, select_cons, select_cons, hsweep]
          refine ⟨rfl, ?_⟩
          rw [List.length_cons, List.length_cons, hlength, hn]
      | false =>
        obtain ⟨hsweep, hlength⟩ := ih l.length (by omega) l rfl
        rw [sweep_of_unmarked_cons hmarked, mask_of_unmarked hmarked, select_cons, hsweep]
        refine ⟨?_, by rw [List.length_cons, hlength, hn]⟩
        cases dropped a with
        | true => rfl
        | false => rfl

/-- What is kept is neither marked nor dropped, and what is not dropped is kept
unless it is marked or comes right after what is. -/
theorem mask_getElem {l : List α} {i : ℕ} {a : α} (h : l[i]? = some a) :
    ((mask marked dropped l)[i]? = some true → marked a = false ∧ dropped a = false) ∧
    (dropped a = false → (mask marked dropped l)[i]? = some true ∨ marked a = true ∨
      ∃ j b, i = j + 1 ∧ l[j]? = some b ∧ marked b = true) := by
  induction hn : l.length using Nat.strong_induction_on generalizing l i with
  | _ n ih =>
    cases l with
    | nil => cases h
    | cons x l =>
      rw [List.length_cons] at hn
      cases hmarked : marked x with
      | true =>
        obtain _ | _ | i := i
        · -- the marked element
          obtain rfl := Option.some.inj h
          refine ⟨fun hkept => ?_, fun _ => .inr (.inl hmarked)⟩
          cases l with
          | nil => simp [mask, hmarked] at hkept
          | cons y l => simp [mask_of_marked hmarked] at hkept
        · -- the one after it
          cases l with
          | nil => cases h
          | cons y l =>
            refine ⟨fun hkept => ?_, fun _ => .inr (.inr ⟨0, x, rfl, rfl, hmarked⟩)⟩
            simp [mask_of_marked hmarked] at hkept
        · cases l with
          | nil => cases h
          | cons y l =>
            rw [List.length_cons] at hn
            -- later ones are as in the list after both
            obtain ⟨hclean, hkeep⟩ := ih l.length (by omega) (l := l) (i := i) h rfl
            rw [mask_of_marked hmarked]
            refine ⟨hclean, fun hdropped => ?_⟩
            obtain hkept | ha | ⟨j, b, rfl, hj, hb⟩ := hkeep hdropped
            · exact .inl hkept
            · exact .inr (.inl ha)
            · exact .inr (.inr ⟨j + 2, b, rfl, hj, hb⟩)
      | false =>
        rw [mask_of_unmarked hmarked]
        cases i with
        | zero =>
          obtain rfl := Option.some.inj h
          simp [hmarked]
        | succ i =>
          -- and here as in the rest
          obtain ⟨hclean, hkeep⟩ := ih l.length (by omega) (l := l) (i := i) h rfl
          refine ⟨hclean, fun hdropped => ?_⟩
          obtain hkept | ha | ⟨j, b, rfl, hj, hb⟩ := hkeep hdropped
          · exact .inl hkept
          · exact .inr (.inl ha)
          · exact .inr (.inr ⟨j + 1, b, rfl, hj, hb⟩)

/-- Without marked elements only what is dropped is missing. -/
theorem sweep_of_unmarked {l : List α} (h : ∀ a ∈ l, marked a = false) :
    sweep marked dropped l = l.filter fun a => !dropped a := by
  induction l with
  | nil => rfl
  | cons a l ih =>
    have htail := ih fun b hb => h b (List.mem_cons_of_mem a hb)
    rw [sweep_of_unmarked_cons (h a List.mem_cons_self), htail, List.filter_cons]
    cases dropped a with
    | true => rfl
    | false => rfl

end Skipping
