/-
Iterators that are asked for one item at a time.

An iterator is a state with a method `next`.  A call answers an item or that
there is none, and leaves a new state; a call that panics is `none`.

* `Yields next s l` — from the state `s` the calls answer the items of `l` in
  order and then, for ever, that there is none; no call panics;
* `yields_of_index` — an iterator that keeps an index into a list;
* `DynIter` — an iterator whose type of states is hidden, as in
  `Box<dyn Iterator>`; `DynIter.Yields.chain` and `DynIter.Yields.foldl_chain`
  say what iterators that are put one behind the other yield.
-/
import Mathlib

universe u v w

namespace Iteration

section Yields

variable {α : Type u} {σ : Type v}

/-- The answers of the first calls of `next`; `none` if one of them panics. -/
def answers (next : σ → Option (Option α × σ)) : ℕ → σ → Option (List (Option α))
  | 0, _ => some []
  | n + 1, s => (next s).bind fun r => (answers next n r.2).map (r.1 :: ·)

/-- What the first calls have to answer: the items of the list, then `None`. -/
def listed : List α → ℕ → List (Option α)
  | _, 0 => []
  | [], n + 1 => none :: listed [] n
  | a :: l, n + 1 => some a :: listed l n

/-- The calls of `next` answer the items of `l`, and then always `None`. -/
def Yields (next : σ → Option (Option α × σ)) (s : σ) (l : List α) : Prop :=
  ∀ n, answers next n s = some (listed l n)

variable {next : σ → Option (Option α × σ)} {s s' : σ} {a : α} {l : List α}

theorem answers_succ {r : Option α × σ} (h : next s = some r) (n : ℕ) :
    answers next (n + 1) s = (answers next n r.2).map (r.1 :: ·) := by
  rw [answers, h, Option.bind_some]

theorem Yields.cons (h : next s = some (some a, s')) (hs' : Yields next s' l) :
    Yields next s (a :: l) := by
  intro n
  cases n with
  | zero => rfl
  | succ n =>
    rw [answers_succ h, hs' n]
    rfl

/-- An iterator that says there is none and stays as it is has ended. -/
theorem yields_nil_of_fixed (h : next s = some (none, s)) : Yields next s [] := by
  intro n
  induction n with
  | zero => rfl
  | succ n ih =>
    rw [answers_succ h, ih]
    rfl

/-- The next call answers the first item that is listed. -/
theorem Yields.next_eq {x : Option α} {l' : List α} (h : Yields next s l)
    (hlisted : ∀ n, listed l (n + 1) = x :: listed l' n) :
    ∃ s', next s = some (x, s') ∧ Yields next s' l' := by
  cases hnext : next s with
  | none =>
    have hone := h 1
    rw [answers, hnext] at hone
    cases hone
  | some r =>
    -- the answer, and what the calls after it answer
    have hsucc : ∀ n, (answers next n r.2).map (r.1 :: ·) = some (x :: listed l' n) := by
      intro n
      rw [← answers_succ hnext, h (n + 1), hlisted]
    have hx : r.1 = x := (List.cons.inj (Option.some.inj (hsucc 0))).1
    refine ⟨r.2, by rw [← hx], fun n => ?_⟩
    obtain ⟨l'', hanswers, hcons⟩ := Option.map_eq_some_iff.mp (hsucc n)
    rw [hanswers, (List.cons.inj hcons).2]

theorem Yields.next_cons (h : Yields next s (a :: l)) :
    ∃ s', next s = some (some a, s') ∧ Yields next s' l :=
  h.next_eq fun _ => rfl

theorem Yields.next_nil (h : Yields next s []) :
    ∃ s', next s = some (none, s') ∧ Yields next s' [] :=
  h.next_eq fun _ => rfl

/-- An iterator that keeps an index yields the items from the index on. -/
theorem yields_of_index {mk : ℕ → σ}
    (hitem : ∀ i a, l[i]? = some a → next (mk i) = some (some a, mk (i + 1)))
    (hend : next (mk l.length) = some (none, mk l.length)) (i : ℕ) (hi : i ≤ l.length) :
    Yields next (mk i) (l.drop i) := by
  induction hleft : l.length - i generalizing i with
  | zero =>
    have hlen : i = l.length := by omega
    rw [hlen, List.drop_length]
    exact yields_nil_of_fixed hend
  | succ left ih =>
    have hlt : i < l.length := by omega
    rw [List.drop_eq_getElem_cons hlt]
    exact (ih (i + 1) (by omega) (by omega)).cons (hitem i _ (List.getElem?_eq_getElem hlt))

end Yields

/-! ### Iterators behind one another -/

/-- `Box<dyn Iterator>`: an iterator of which only `next` is known. -/
structure DynIter (α : Type u) where
  {σ : Type v}
  state : σ
  next : σ → Option (Option α × σ)

/-- `Chain::next`: the first iterator is dropped when it has ended. -/
def chainNext {α : Type u} {σ : Type v} {τ : Type w} (f : σ → Option (Option α × σ))
    (g : τ → Option (Option α × τ)) : Option σ × τ → Option (Option α × (Option σ × τ))
  | (some s, t) =>
    match f s with
    | none => none
    | some (some a, s') => some (some a, (some s', t))
    | some (none, _) => (g t).map fun r => (r.1, (none, r.2))
  | (none, t) => (g t).map fun r => (r.1, (none, r.2))

namespace DynIter

variable {α : Type u}

/-- `Iterator::chain`. -/
def chain (it : DynIter.{u, v} α) (it' : DynIter.{u, w} α) : DynIter.{u, max v w} α :=
  ⟨(some it.state, it'.state), chainNext it.next it'.next⟩

/-- `std::iter::empty`. -/
def empty : DynIter α := ⟨(), fun u => some (none, u)⟩

/-- The iterator yields the items of `l`. -/
def Yields (it : DynIter α) (l : List α) : Prop := Iteration.Yields it.next it.state l

theorem empty_yields : (empty : DynIter α).Yields [] := yields_nil_of_fixed rfl

end DynIter

section Chain

variable {α : Type u} {σ : Type v} {τ : Type w} {f : σ → Option (Option α × σ)}
  {g : τ → Option (Option α × τ)}

/-- With the first iterator gone, a chain is the second. -/
theorem Yields.chain_right {t : τ} {l : List α} (h : Yields g t l) :
    Yields (chainNext f g) (none, t) l := by
  -- once the first iterator is gone, each answer is that of the second
  have hanswers : ∀ n t, answers (chainNext f g) n (none, t) = answers g n t := by
    intro n
    induction n with
    | zero => exact fun _ => rfl
    | succ n ih =>
      intro t
      rw [answers, answers, chainNext]
      cases g t with
      | none => rfl
      | some r =>
        show Option.map _ (answers (chainNext f g) n (none, r.2)) = _
        rw [ih]
        rfl
  intro n
  rw [hanswers]
  exact h n

/-- A chain yields the items of the first iterator, and then those of the
second. -/
theorem Yields.chain {s : σ} {t : τ} {l l' : List α} (hs : Yields f s l) (ht : Yields g t l') :
    Yields (chainNext f g) (some s, t) (l ++ l') := by
  induction l generalizing s with
  | cons a l ih =>
    obtain ⟨s', hnext, hs'⟩ := hs.next_cons
    refine Yields.cons ?_ (ih hs')
    rw [chainNext, hnext]
  | nil =>
    -- the call that finds the first iterator at its end asks the second
    obtain ⟨s', hnext, _⟩ := hs.next_nil
    have hsame : chainNext f g (some s, t) = chainNext f g (none, t) := by
      rw [chainNext, hnext, chainNext]
    intro n
    have hright := ht.chain_right (f := f) n
    cases n with
    | zero => rfl
    | succ n =>
      rw [answers, hsame]
      exact hright

end Chain

namespace DynIter

variable {α : Type u}

theorem Yields.chain {it : DynIter.{u, v} α} {it' : DynIter.{u, w} α} {l l' : List α}
    (h : it.Yields l) (h' : it'.Yields l') : (it.chain it').Yields (l ++ l') :=
  Iteration.Yields.chain h h'

/-- A loop that puts one iterator after the other behind those it has. -/
theorem Yields.foldl_chain {β : Type*} {f : β → DynIter.{u, v} α} {g : β → List α}
    (h : ∀ b, (f b).Yields (g b)) (bs : List β) {it : DynIter.{u, v} α} {l : List α}
    (hit : it.Yields l) :
    (bs.foldl (fun it b => it.chain (f b)) it).Yields (l ++ bs.flatMap g) := by
  induction bs generalizing it l with
  | nil =>
    rw [List.flatMap_nil, List.append_nil]
    exact hit
  | cons b bs ih =>
    rw [List.flatMap_cons, ← List.append_assoc]
    exact ih (hit.chain (h b))

end DynIter

end Iteration
