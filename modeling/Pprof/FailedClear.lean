/-
A clear of the overflow array that fails.

`clear` resets the counters, truncates the file and rewinds it.  When one of the
last two steps fails, the offset stays where the last write left it, and the
next flush writes there, while reading starts at the beginning of the file.

* `KeepsApart` — after a failed clear, reading yields the new entries, alone or
  with all the old ones, and decodes nothing but entries;
* `contents_refilled` — what the file has after a failed clear and one full
  buffer;
* `eq_of_repeats` — a list that repeats its own beginning from some point on
  is determined by what stands before that point;
* `failed_clear_iff` — a failed clear keeps old and new apart exactly when
  nothing had been written to the file.
-/
import Pprof.FailedFlush

open ByteFile
open scoped List

namespace Pprof.TempFdArray

variable [Target] {T B : Type*} [PlainLayout T B]

/-- Reading yields `es`, and the bytes it decodes are those of entries of `es`. -/
def ReadsBack (a : TempFdArray T B) (io : Io) (es : List T) : Prop :=
  a.tryIter io = .ok es ∧
    ∃ fl, es = a.buffered ++ fl ∧ a.file.contents.take a.needed = imageList B fl

/-- After a clear, whatever is pushed without a failed write: reading yields the
new entries only, or all the old ones before or behind them. -/
def KeepsApart (a : TempFdArray T B) (io : Io) : Prop :=
  ∀ (ps : List (Io × T)) (io' : Io), WritesFit T B ps → io'.readsOk = true →
    ∃ es new, ((a.clear io).2.pushAll ps).ReadsBack io' es ∧ new ~ ps.map Prod.snd ∧
      (es = new ∨ ∃ old, a.tryIter Io.ok = .ok old ∧ (es = old ++ new ∨ es = new ++ old))

/-- A clear that fails leaves the offset where it was. -/
theorem clear_offset {io : Io} (a : TempFdArray T B) (hio : io.clearsOk = false) :
    (a.clear io).2.file.offset = a.file.offset := by
  rw [clear]
  cases hset : io.setLen with
  | false => rfl
  | true =>
    cases hseek : io.seek with
    | false => rfl
    | true => simp [Io.clearsOk, hset, hseek] at hio

/-! ### Nothing was written -/

/-- With the offset at the beginning, flushes write over whatever the file has. -/
theorem keepsApart_of_offset {a : TempFdArray T B} {io : Io} (hio : io.clearsOk = false)
    (h : a.file.offset = 0) : a.KeepsApart io := by
  obtain ⟨hindex, hflush⟩ := a.clear_rewinds io
  have hneeded : (a.clear io).2.needed = 0 := by rw [needed, hflush, Nat.mul_zero, Nat.zero_mul]
  -- what the file still holds counts for nothing, as the next write begins at its start
  have hstart : (a.clear io).2.InOrder [] (a.clear io).2.file.contents := by
    refine ⟨?_, ?_, ?_, ?_⟩
    · rw [hflush, Nat.mul_zero]
      exact Nat.zero_le _
    · rw [buffered, hindex, List.take_zero, List.drop_nil]
    · rw [List.take_nil]
      rfl
    · rw [a.clear_offset hio, h, hneeded]
  intro ps io' hps hio'
  obtain ⟨n, hall⟩ := hstart.pushAll hps
  rw [List.nil_append] at hall
  refine ⟨_, _, ⟨hall.tryIter hio',
    (ps.map Prod.snd).take (BUFFER_LENGTH * ((a.clear io).2.pushAll ps).flushN), ?_, ?_⟩, ?_,
    .inl rfl⟩
  · rw [hall.buffered]
  · rw [hall.contents, List.take_left' hall.length_image]
  · have hcomm : ∀ l l' : List T, l ++ l' ~ l' ++ l := fun _ _ => List.perm_append_comm
    have hperm := hcomm
      ((ps.map Prod.snd).drop (BUFFER_LENGTH * ((a.clear io).2.pushAll ps).flushN))
      ((ps.map Prod.snd).take (BUFFER_LENGTH * ((a.clear io).2.pushAll ps).flushN))
    rwa [List.take_append_drop] at hperm

/-! ### Something was written -/

/-- Pushes that find room only fill the buffer. -/
theorem pushAll_stores {a : TempFdArray T B} {ps : List (Io × T)}
    (hroom : a.bufferIndex + ps.length ≤ BUFFER_LENGTH) :
    (a.pushAll ps).buffered = a.buffered ++ ps.map Prod.snd ∧
      (a.pushAll ps).bufferIndex = a.bufferIndex + ps.length ∧
      (a.pushAll ps).flushN = a.flushN ∧ (a.pushAll ps).file = a.file := by
  induction ps generalizing a with
  | nil => exact ⟨(List.append_nil _).symm, rfl, rfl, rfl⟩
  | cons p ps ih =>
    rw [List.length_cons] at hroom
    have hlt : a.bufferIndex < BUFFER_LENGTH := by omega
    have hp : a.push p.1 p.2 = (.ok (), a.store hlt p.2) := by rw [push, dif_pos hlt]
    -- a push with room in the buffer only stores
    have hall : a.pushAll (p :: ps) = (a.store hlt p.2).pushAll ps := by
      show (a.push p.1 p.2).2.pushAll ps = _
      rw [hp]
    have hroom' : (a.store hlt p.2).bufferIndex + ps.length ≤ BUFFER_LENGTH := by
      show a.bufferIndex + 1 + ps.length ≤ BUFFER_LENGTH
      omega
    obtain ⟨hbuffered, hindex, hflush, hfile⟩ := ih hroom'
    rw [hall]
    refine ⟨?_, ?_, hflush, hfile⟩
    · rw [hbuffered, buffered_store, List.append_assoc, List.singleton_append, List.map_cons]
    · rw [hindex, List.length_cons]
      show a.bufferIndex + 1 + ps.length = _
      omega

/-- One more entry than the buffer has slots, all the same. -/
def refill (x : T) : List (Io × T) := List.replicate (BUFFER_LENGTH + 1) (Io.ok, x)

/-- The images of a buffer of one entry. -/
def block (B : Type*) [PlainLayout T B] (x : T) : List B :=
  imageList B (List.replicate BUFFER_LENGTH x)

theorem length_block (x : T) : (block B x).length = BUFFER_LENGTH * Layout.size T B := by
  rw [block, length_imageList, List.length_replicate]

theorem block_inj {x y : T} (h : block B x = block B y) : x = y := by
  have hread := congrArg (readList T) h
  rw [block, block, readList_imageList, readList_imageList] at hread
  exact (List.replicate_right_inj BUFFER_LENGTH_pos.ne').mp hread

/-- After a full buffer and one more entry the buffer has been written at the
offset. -/
theorem contents_refilled {c : TempFdArray T B} (hindex : c.bufferIndex = 0) (hflush : c.flushN = 0)
    (x : T) : (c.pushAll (refill x)).buffered = [x] ∧
      (c.pushAll (refill x)).needed = BUFFER_LENGTH * Layout.size T B ∧
      (c.pushAll (refill x)).told = BUFFER_LENGTH + 1 ∧
      (c.pushAll (refill x)).file = c.file.write (Layout.zero T) (block B x) := by
  -- the first pushes fill the buffer
  have hroom : c.bufferIndex + (List.replicate BUFFER_LENGTH (Io.ok, x)).length
      ≤ BUFFER_LENGTH := by
    rw [hindex, List.length_replicate]
    omega
  obtain ⟨hbuffered, hindex', hflush', hfile⟩ := pushAll_stores (a := c) hroom
  have hfull : ¬ (c.pushAll (List.replicate BUFFER_LENGTH (Io.ok, x))).bufferIndex
      < BUFFER_LENGTH := by
    rw [hindex', List.length_replicate]
    omega
  have hbuffer : (c.pushAll (List.replicate BUFFER_LENGTH (Io.ok, x))).buffer
      = List.replicate BUFFER_LENGTH x := by
    rw [← buffered_of_full hfull, hbuffered, buffered, hindex, List.take_zero, List.nil_append,
      List.map_replicate]
  -- and one more writes it out
  have hall : c.pushAll (refill x)
      = ((c.pushAll (List.replicate BUFFER_LENGTH (Io.ok, x))).push Io.ok x).2 := by
    rw [refill, List.replicate_succ', pushAll, List.foldl_append]
    rfl
  obtain ⟨hroom, _⟩ | ⟨_, _, hp⟩ | ⟨_, hfits, _⟩ :=
    (c.pushAll (List.replicate BUFFER_LENGTH (Io.ok, x))).push_cases Io.ok x
  · exact absurd hroom hfull
  · rw [hall, hp]
    refine ⟨?_, ?_, ?_, ?_⟩
    · have hempty : ((c.pushAll (List.replicate BUFFER_LENGTH (Io.ok, x))).flushed Io.ok).buffered
          = [] := List.take_zero
      rw [buffered_store, hempty, List.nil_append]
    · show BUFFER_LENGTH * ((c.pushAll _).flushN + 1) * Layout.size T B = _
      rw [hflush', hflush, Nat.zero_add, Nat.mul_one]
    · show 0 + 1 + BUFFER_LENGTH * ((c.pushAll _).flushN + 1) = _
      rw [hflush', hflush, Nat.zero_add, Nat.mul_one, Nat.add_comm]
    · show ((c.pushAll _).file.writeAll _ .unlimited (imageList B (c.pushAll _).buffer)).2 = _
      rw [hfile, hbuffer]
      rfl
  · cases hfits

omit [Target] in
/-- A list that is `p` followed by a part of its own beginning is determined by
`p`. -/
theorem eq_of_repeats {α : Type*} {p w w' : List α} {n : ℕ} (hp : p ≠ [])
    (h : w = p ++ w.take n) (h' : w' = p ++ w'.take n) : w = w' := by
  have hpos := List.length_pos_of_ne_nil hp
  -- equal up to any position, by what stands `p.length` earlier
  have htake : ∀ m, w.take m = w'.take m := by
    intro m
    induction m using Nat.strong_induction_on with
    | _ m ih =>
      cases m with
      | zero => rw [List.take_zero, List.take_zero]
      | succ m =>
        have hlt : min (m + 1 - p.length) n < m + 1 := by omega
        rw [h, h', List.take_append, List.take_append, List.take_take, List.take_take, ih _ hlt]
  have hall := htake (max w.length w'.length)
  rwa [List.take_of_length_le (le_max_left _ _), List.take_of_length_le (le_max_right _ _)]
    at hall

omit [Target] in
/-- As many entries as were pushed, all of them the same, leave no room for old
ones. -/
theorem eq_of_keeps {x : T} {n : ℕ} {es new : List T} (hlen : es.length = n)
    (hnew : new ~ List.replicate n x)
    (h : es = new ∨ ∃ old, es = old ++ new ∨ es = new ++ old) : es = List.replicate n x := by
  have hx := List.perm_replicate.mp hnew
  have hlength := hnew.length_eq
  rw [List.length_replicate] at hlength
  have hnil : ∀ old : List T, es.length = old.length + new.length → old = [] := by
    intro old hadd
    exact List.eq_nil_of_length_eq_zero (by omega)
  obtain h | ⟨old, h | h⟩ := h
  · rw [h, hx]
  · rw [h, hnil old (by rw [h, List.length_append]), List.nil_append, hx]
  · rw [h, hnil old (by rw [h, List.length_append, Nat.add_comm]), List.append_nil, hx]

/-- If old and new are kept apart, the block that is written after the clear is
what stands before the offset and then a part of itself. -/
theorem KeepsApart.block_eq {a : TempFdArray T B} {io : Io} (h : a.KeepsApart io)
    (hio : io.clearsOk = false) :
    ∃ p : List B, p.length = a.file.offset ∧ ∀ x : T, block B x
      = p.take (BUFFER_LENGTH * Layout.size T B) ++
        (block B x).take (BUFFER_LENGTH * Layout.size T B - a.file.offset) := by
  obtain ⟨hindex, hflush⟩ := a.clear_rewinds io
  have hoffset := a.clear_offset hio
  set c := (a.clear io).2 with hc
  refine ⟨c.file.contents.take c.file.offset ++
    List.replicate (c.file.offset - c.file.contents.length) (Layout.zero T), ?_, fun x => ?_⟩
  · rw [List.length_append, List.length_take, List.length_replicate, hoffset]
    omega
  obtain ⟨hbuffered, hneeded, htold, hfile⟩ := contents_refilled hindex hflush x
  have hfit : WritesFit T B (refill x) := by
    intro p hp
    rw [List.eq_of_mem_replicate hp]
    rfl
  obtain ⟨es, new, ⟨hes, fl, hfl, hbytes⟩, hnew, hcase⟩ := h (refill x) Io.ok hfit rfl
  rw [refill, List.map_replicate] at hnew
  have hlen : es.length = BUFFER_LENGTH + 1 := (length_of_tryIter hes).trans htold
  have hall : es = List.replicate (BUFFER_LENGTH + 1) x := by
    obtain hsame | ⟨old, _, hold⟩ := hcase
    · exact eq_of_keeps hlen hnew (.inl hsame)
    · exact eq_of_keeps hlen hnew (.inr ⟨old, hold⟩)
  -- so the bytes that are read are the block
  have hblock : fl = List.replicate BUFFER_LENGTH x := by
    rw [hall, hbuffered, List.replicate_succ, List.singleton_append] at hfl
    exact (List.cons.inj hfl).2.symm
  rw [hfile, hneeded, hblock, ← block] at hbytes
  rw [← hoffset]
  nth_rewrite 1 [← hbytes]
  rw [File.write]
  have hlength : (c.file.contents.take c.file.offset ++
      List.replicate (c.file.offset - c.file.contents.length) (Layout.zero T)).length
      = c.file.offset := by
    rw [List.length_append, List.length_take, List.length_replicate]
    omega
  have hle : BUFFER_LENGTH * Layout.size T B - c.file.offset ≤ (block B x).length := by
    rw [length_block]
    omega
  rw [List.append_assoc, List.take_append, hlength, List.take_append_of_le_length hle]

/-- With two different entries, old and new are kept apart only if nothing stands
before the offset. -/
theorem KeepsApart.offset_eq [Nontrivial T] {a : TempFdArray T B} {io : Io} (h : a.KeepsApart io)
    (hio : io.clearsOk = false) : a.file.offset = 0 := by
  by_contra hne
  obtain ⟨p, hp, hblock⟩ := h.block_eq hio
  obtain ⟨x, y, hxy⟩ := exists_pair_ne T
  have hsize : 0 < BUFFER_LENGTH * Layout.size T B :=
    Nat.mul_pos BUFFER_LENGTH_pos Layout.size_pos
  have hprefix : p.take (BUFFER_LENGTH * Layout.size T B) ≠ [] := by
    intro hnil
    have hlength := congrArg List.length hnil
    rw [List.length_take, List.length_nil] at hlength
    omega
  exact hxy (block_inj (eq_of_repeats hprefix (hblock x) (hblock y)))

instance {K : Type*} [Inhabited K] : Nontrivial (Entry K) :=
  ⟨⟨default, 0⟩, ⟨default, 1⟩, fun h => by cases h⟩

/-- **When a failed clear keeps old and new apart.**  In every state of the
overflow array and for every clear whose truncation or rewinding fails: reading
after any further pushes yields the new entries, alone or with all the old ones,
and decodes nothing else, if and only if the file offset was at the beginning. -/
theorem failed_clear_iff {K : Type*} [Inhabited K] [PlainLayout (Entry K) B]
    (a : TempFdArray (Entry K) B) {io : Io} (hio : io.clearsOk = false) :
    a.KeepsApart io ↔ a.file.offset = 0 :=
  ⟨fun h => h.offset_eq hio, keepsApart_of_offset hio⟩

end Pprof.TempFdArray

/-! ### A clear whose truncation fails -/

namespace Pprof.TempFdArray

local instance : Target := Target.linux
local instance : PlainLayout (Entry ℕ) (Entry ℕ) := PlainLayout.cell (Entry ℕ)

/-- Truncating the file fails. -/
def notTruncating : Io := { Io.ok with setLen := false }

/-- With one entry in the buffer nothing has been written. -/
theorem failed_clear_iff_unwritten :
    ∃ a : TempFdArray (Entry ℕ) (Entry ℕ), new true = .ok a ∧
      (a.pushAll [(Io.ok, ⟨0, 1⟩)]).KeepsApart notTruncating := by
  obtain ⟨a, ha⟩ : ∃ a : TempFdArray (Entry ℕ) (Entry ℕ), new true = .ok a := ⟨_, rfl⟩
  have hoffset : (a.pushAll [(Io.ok, ⟨0, 1⟩)]).file.offset = 0 := by
    obtain rfl := Except.ok.inj ha
    rfl
  exact ⟨a, ha, (failed_clear_iff (a.pushAll [(Io.ok, ⟨0, 1⟩)])
    (show notTruncating.clearsOk = false from rfl)).mpr hoffset⟩

/-- The entries from `first` on, one more than a buffer has slots. -/
def sixtyThree (first : ℕ) : List (Io × Entry ℕ) :=
  (List.range 63).map fun k => (Io.ok, ⟨first + k, 1⟩)

/-- After a flush and a failed clear, new entries `100` to `162` are pushed; `162`
is read, and then the old entries `0` to `61`. -/
theorem not_keepsApart :
    ∃ a : TempFdArray (Entry ℕ) (Entry ℕ), new true = .ok a ∧
      ((((a.pushAll (sixtyThree 0)).clear notTruncating).2).pushAll (sixtyThree 100)).tryIter Io.ok
        = .ok (⟨162, 1⟩ :: (List.range 62).map fun k => ⟨k, 1⟩) ∧
      ¬ (a.pushAll (sixtyThree 0)).KeepsApart notTruncating := by
  refine ⟨_, rfl, by decide +kernel, fun h => ?_⟩
  exact absurd (h.offset_eq rfl) (by decide +kernel)

end Pprof.TempFdArray
