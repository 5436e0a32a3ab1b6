/-
The order of the entries of the overflow array.

A full buffer stays in memory until the next push, and reading yields first the
buffer and then the file, with one index that runs over both.

* `InOrder a ts rest` — the array holds the entries `ts` in the order in which
  they were pushed, over a file that has the bytes `rest` behind them;
* `InOrder.pushAll` — what pushes that can be written do to it;
* `iterator_yields` — the iterator yields what `tryIter` says, and its index
  never underflows;
* `gives_back` — so an array gives back what was pushed since it was made or
  cleared;
* `Collector.iterator_yields` — the iterator of the collector.
-/
import Pprof.Collector
import Pprof.LiveEntries

open ByteFile Iteration

namespace Pprof

/-! ### The iterator -/

/-- `TempFdArrayIterator`. -/
structure TempFdArrayIterator (T B : Type*) where
  buffer : List T
  fileVec : List B
  index : ℕ

/-- `a - b`, which panics where it would underflow. -/
def checkedSub (a b : ℕ) : Option ℕ := if b ≤ a then some (a - b) else none

theorem checkedSub_of_le {a b : ℕ} (h : b ≤ a) : checkedSub a b = some (a - b) := if_pos h

namespace TempFdArrayIterator

variable {T B : Type*} [Layout T B]

/-- `TempFdArrayIterator::next`. -/
def next (it : TempFdArrayIterator T B) : Option (Option T × TempFdArrayIterator T B) :=
  if it.index < it.buffer.length then
    let it := { it with index := it.index + 1 }
    (checkedSub it.index 1).bind fun i => it.buffer[i]?.map fun entry => (some entry, it)
  else
    let ts := readList T it.fileVec
    (checkedSub it.index it.buffer.length).bind fun i =>
      if i < ts.length then
        let it := { it with index := it.index + 1 }
        (checkedSub it.index it.buffer.length).bind fun i =>
          (checkedSub i 1).bind fun i => ts[i]?.map fun entry => (some entry, it)
      else some (none, it)

/-- One index runs over the buffer and the file. -/
theorem next_eq (buffer : List T) (fileVec : List B) (i : ℕ) :
    next ⟨buffer, fileVec, i⟩ =
      match (buffer ++ readList T fileVec)[i]? with
      | some entry => some (some entry, ⟨buffer, fileVec, i + 1⟩)
      | none => some (none, ⟨buffer, fileVec, i⟩) := by
  by_cases hbuffer : i < buffer.length
  · rw [next, if_pos hbuffer, List.getElem?_append_left hbuffer, List.getElem?_eq_getElem hbuffer]
    show (checkedSub (i + 1) 1).bind _ = _
    rw [checkedSub_of_le (by omega), Option.bind_some]
    show buffer[i]?.map _ = _
    rw [List.getElem?_eq_getElem hbuffer, Option.map_some]
  · -- past the buffer the iterator goes on in the file
    have hle : buffer.length ≤ i := by omega
    rw [next, if_neg hbuffer, List.getElem?_append_right hle]
    show (checkedSub i buffer.length).bind _ = _
    rw [checkedSub_of_le hle, Option.bind_some]
    by_cases hfile : i - buffer.length < (readList T fileVec).length
    · rw [if_pos hfile, List.getElem?_eq_getElem hfile]
      show (checkedSub (i + 1) buffer.length).bind _ = _
      have hindex : i + 1 - buffer.length - 1 = i - buffer.length := by omega
      rw [checkedSub_of_le (by omega), Option.bind_some, checkedSub_of_le (by omega),
        Option.bind_some, hindex, List.getElem?_eq_getElem hfile, Option.map_some]
    · rw [if_neg hfile, List.getElem?_eq_none (by omega)]

/-- The iterator yields the buffer, then the file, then always `None`; no
subtraction of it underflows. -/
theorem yields (buffer : List T) (fileVec : List B) :
    Yields next ⟨buffer, fileVec, 0⟩ (buffer ++ readList T fileVec) := by
  have hitem : ∀ i entry, (buffer ++ readList T fileVec)[i]? = some entry →
      next ⟨buffer, fileVec, i⟩ = some (some entry, ⟨buffer, fileVec, i + 1⟩) := by
    intro i entry h
    rw [next_eq, h]
  have hend : next ⟨buffer, fileVec, (buffer ++ readList T fileVec).length⟩
      = some (none, ⟨buffer, fileVec, (buffer ++ readList T fileVec).length⟩) := by
    rw [next_eq, List.getElem?_eq_none (Nat.le_refl _)]
  exact yields_of_index hitem hend 0 (Nat.zero_le _)

end TempFdArrayIterator

/-! ### Pushes that can be written -/

namespace TempFdArray

variable [Target] {T B : Type*} [Layout T B]

/-- `TempFdArray::try_iter`, the iterator itself. -/
def iterator (io : Io) (a : TempFdArray T B) : Except IoError (TempFdArrayIterator T B) :=
  if io.reopen then
    if io.read then
      match a.file.readExact a.needed with
      | none => .error .unexpectedEof
      | some fileVec => if io.seekEnd then .ok ⟨a.buffered, fileVec, 0⟩ else .error .os
    else .error .os
  else .error .os

theorem iterator_yields {io : Io} {a : TempFdArray T B} {ts : List T} (h : a.tryIter io = .ok ts) :
    ∃ it, a.iterator io = .ok it ∧ Yields TempFdArrayIterator.next it ts := by
  obtain ⟨hio, hneeded, rfl⟩ := tryIter_eq_ok.mp h
  obtain ⟨⟨hreopen, hread⟩, hseek⟩ : (io.reopen = true ∧ io.read = true) ∧ io.seekEnd = true := by
    simpa [Io.readsOk] using hio
  refine ⟨_, ?_, TempFdArrayIterator.yields a.buffered (a.file.contents.take a.needed)⟩
  rw [iterator, if_pos hreopen, if_pos hread, File.readExact, if_pos hneeded]
  exact if_pos hseek

/-- The pushes of a list of entries, each with the answers of the file
operations. -/
def pushAll (a : TempFdArray T B) (ps : List (Io × T)) : TempFdArray T B :=
  ps.foldl (fun a p => (a.push p.1 p.2).2) a

/-- No write of the pushes can fail. -/
def WritesFit (T B : Type*) [Layout T B] (ps : List (Io × T)) : Prop :=
  ∀ p ∈ ps, p.1.write.fits (BUFFER_LENGTH * Layout.size T B) = true

/-- The array holds the entries `ts` in the order in which they were pushed: the
first ones in the file, where the bytes `rest` follow them, and the others in
the buffer. -/
structure InOrder (a : TempFdArray T B) (ts : List T) (rest : List B) : Prop where
  flushed_le : BUFFER_LENGTH * a.flushN ≤ ts.length
  buffered : a.buffered = ts.drop (BUFFER_LENGTH * a.flushN)
  contents : a.file.contents = imageList B (ts.take (BUFFER_LENGTH * a.flushN)) ++ rest
  offset : a.file.offset = a.needed

theorem InOrder.length_image {a : TempFdArray T B} {ts : List T} {rest : List B}
    (h : a.InOrder ts rest) :
    (imageList B (ts.take (BUFFER_LENGTH * a.flushN))).length = a.needed := by
  rw [length_imageList, List.length_take, Nat.min_eq_left h.flushed_le, needed]

/-- Reading yields the newest entries and then the flushed ones. -/
theorem InOrder.tryIter {T B : Type*} [PlainLayout T B] {a : TempFdArray T B} {ts : List T}
    {rest : List B} (h : a.InOrder ts rest) {io : Io} (hio : io.readsOk) :
    a.tryIter io = .ok (ts.drop (BUFFER_LENGTH * a.flushN)
      ++ ts.take (BUFFER_LENGTH * a.flushN)) := by
  refine tryIter_eq_ok.mpr ⟨hio, ?_, ?_⟩
  · rw [h.contents, List.length_append, h.length_image]
    exact Nat.le_add_right _ _
  · rw [h.contents, List.take_left' h.length_image, readList_imageList, h.buffered]

/-- A push that can be written is accepted, and comes last. -/
theorem InOrder.push {a : TempFdArray T B} {ts : List T} {rest : List B} (h : a.InOrder ts rest)
    {io : Io} (hio : io.write.fits (BUFFER_LENGTH * Layout.size T B)) (entry : T) :
    ∃ n, (a.push io entry).2.InOrder (ts ++ [entry]) (rest.drop n) := by
  have hle := h.flushed_le
  obtain ⟨hroom, hp⟩ | ⟨hfull, _, hp⟩ | ⟨_, hfits, _⟩ := a.push_cases io entry
  · rw [hp]
    refine ⟨0, ?_, ?_, ?_, h.offset⟩
    · show BUFFER_LENGTH * a.flushN ≤ (ts ++ [entry]).length
      rw [List.length_append]
      omega
    · rw [buffered_store, h.buffered]
      exact (List.drop_append_of_le_length hle).symm
    · show a.file.contents = imageList B ((ts ++ [entry]).take (BUFFER_LENGTH * a.flushN)) ++ _
      rw [List.take_append_of_le_length hle, List.drop_zero, h.contents]
  · -- the buffer goes behind the entries in the file
    have hbuffer : ts.drop (BUFFER_LENGTH * a.flushN) = a.buffer := by
      rw [← h.buffered, buffered_of_full hfull]
    have hlength : BUFFER_LENGTH * (a.flushN + 1) = ts.length := by
      have hlen := congrArg List.length hbuffer
      rw [List.length_drop, a.buffer_length] at hlen
      rw [Nat.mul_succ]
      omega
    have hio' : io.write.fits (imageList B a.buffer).length := by rwa [length_image_buffer]
    have hflushN : ((a.flushed io).store (a.flushed_lt io) entry).flushN = a.flushN + 1 := rfl
    have hfile : ((a.flushed io).store (a.flushed_lt io) entry).file = _ :=
      File.writeAll_over h.contents (h.offset.trans h.length_image.symm) hio'
    rw [← imageList_append, h.length_image, ← hbuffer, List.take_append_drop] at hfile
    rw [hp]
    refine ⟨(imageList B a.buffer).length, ?_, ?_, ?_, ?_⟩
    · rw [hflushN, hlength, List.length_append]
      omega
    · have hempty : (a.flushed io).buffered = [] := List.take_zero
      rw [buffered_store, hempty, hflushN, hlength, List.drop_left, List.nil_append]
    · rw [hflushN, hlength, List.take_left, hfile, hbuffer]
    · rw [hfile, hbuffer, length_image_buffer, needed, needed, hflushN, Nat.mul_succ, Nat.add_mul]
  · exact absurd hio (by simp [hfits])

theorem InOrder.pushAll {a : TempFdArray T B} {ts : List T} {rest : List B}
    (h : a.InOrder ts rest) {ps : List (Io × T)} (hps : WritesFit T B ps) :
    ∃ n, (a.pushAll ps).InOrder (ts ++ ps.map Prod.snd) (rest.drop n) := by
  induction ps generalizing a ts rest with
  | nil =>
    rw [List.map_nil, List.append_nil]
    exact ⟨0, h⟩
  | cons p ps ih =>
    obtain ⟨n, hpush⟩ := h.push (hps p List.mem_cons_self) p.2
    obtain ⟨m, hrun⟩ := ih hpush fun q hq => hps q (List.mem_cons_of_mem _ hq)
    rw [List.append_assoc, List.singleton_append, ← List.map_cons, List.drop_drop] at hrun
    exact ⟨_, hrun⟩

theorem inOrder_new [Inhabited T] {a : TempFdArray T B} (h : new true = .ok a) :
    a.InOrder [] [] := by
  obtain rfl := Except.ok.inj h
  exact ⟨Nat.zero_le _, List.take_zero, rfl, by rw [needed, Nat.mul_zero, Nat.zero_mul]; rfl⟩

theorem inOrder_clear {a a₀ : TempFdArray T B} {io : Io} (h : a₀.clear io = (.ok (), a)) :
    a.InOrder [] [] := by
  have hio : io.clearsOk = true := by
    cases hio : io.clearsOk with
    | true => rfl
    | false =>
      have herr := a₀.clear_fails hio
      rw [h] at herr
      cases herr
  obtain ⟨_, hstores, hbuffered⟩ := a₀.clear_stores hio
  rw [h] at hstores hbuffered
  refine ⟨?_, ?_, ?_, hstores.atEnd.trans hstores.needed.symm⟩
  · rw [← hstores.length, List.length_nil]
  · rw [hbuffered, List.drop_nil]
  · rw [hstores.contents, List.take_nil, List.append_nil]

/-- **The overflow array gives back what was pushed.**  After pushes without a
failed write into an array that is new or was cleared, the buffer is not
overfull, the file holds whole buffers of the oldest entries, and the iterator
yields the newest entries in the order in which they were pushed, then those of
the file in that order, and then always `None`. -/
theorem gives_back {T B : Type*} [PlainLayout T B] [Inhabited T] {a : TempFdArray T B}
    (h : new true = .ok a ∨ ∃ (a₀ : TempFdArray T B) (io : Io), a₀.clear io = (.ok (), a))
    {ps : List (Io × T)} (hps : WritesFit T B ps) {io : Io} (hio : io.readsOk) :
    (a.pushAll ps).bufferIndex ≤ BUFFER_LENGTH ∧
    BUFFER_LENGTH * (a.pushAll ps).flushN ≤ ps.length ∧
    (a.pushAll ps).file.contents
      = imageList B ((ps.map Prod.snd).take (BUFFER_LENGTH * (a.pushAll ps).flushN)) ∧
    ∃ it, (a.pushAll ps).iterator io = .ok it ∧ Yields TempFdArrayIterator.next it
      ((ps.map Prod.snd).drop (BUFFER_LENGTH * (a.pushAll ps).flushN) ++
        (ps.map Prod.snd).take (BUFFER_LENGTH * (a.pushAll ps).flushN)) := by
  have hstart : a.InOrder [] [] := by
    rcases h with h | ⟨a₀, io, h⟩
    · exact inOrder_new h
    · exact inOrder_clear h
  obtain ⟨n, hall⟩ := hstart.pushAll hps
  rw [List.nil_append, List.drop_nil] at hall
  refine ⟨(a.pushAll ps).bufferIndex_le, ?_, ?_, iterator_yields (hall.tryIter hio)⟩
  · have hle := hall.flushed_le
    rwa [List.length_map] at hle
  · rw [hall.contents, List.append_nil]

end TempFdArray

/-- `Collector::try_iter`, the iterator itself: that of the counter with that of
the overflow array behind it. -/
def Collector.iterator [Target] {K B : Type*} [Layout (Entry K) B] (io : Io)
    (c : Collector K B) : Except IoError (DynIter (Entry K)) :=
  match c.tempArray.iterator io with
  | .ok it => .ok (c.map.iterator.chain ⟨it, TempFdArrayIterator.next⟩)
  | .error err => .error err

theorem Collector.iterator_yields [Target] {K B : Type*} [Layout (Entry K) B] {io : Io}
    {c : Collector K B} {es : List (Entry K)} (h : c.tryIter io = .ok es) :
    ∃ it, c.iterator io = .ok it ∧ it.Yields es := by
  obtain ⟨hio, hneeded, rfl⟩ := Collector.tryIter_eq_ok.mp h
  obtain ⟨it, hit, hyields⟩ :=
    TempFdArray.iterator_yields (TempFdArray.tryIter_eq_ok.mpr ⟨hio, hneeded, rfl⟩)
  have harray : (DynIter.mk it TempFdArrayIterator.next).Yields _ := hyields
  refine ⟨_, ?_, c.map.iterator_yields.chain harray⟩
  rw [Collector.iterator, hit]

end Pprof

namespace Pprof.TempFdArray

local instance : Target := Target.linux
local instance : PlainLayout (Entry ℕ) (Entry ℕ) := PlainLayout.cell (Entry ℕ)

/-- The entries `0` to `62`, each pushed without a failure. -/
def pushes : List (Io × Entry ℕ) := (List.range 63).map fun k => (Io.ok, ⟨k, 1⟩)

theorem pushes_fit : WritesFit (Entry ℕ) (Entry ℕ) pushes := by
  intro p hp
  obtain ⟨k, _, rfl⟩ := List.mem_map.mp hp
  rfl

/-- The first entry after a full buffer flushes it, and is read before it. -/
theorem gives_back_flushed :
    ∃ (a : TempFdArray (Entry ℕ) (Entry ℕ)) (it : _), new true = .ok a ∧
      (a.pushAll pushes).iterator Io.ok = .ok it ∧ Yields TempFdArrayIterator.next it
        (⟨62, 1⟩ :: (List.range 62).map fun k => ⟨k, 1⟩) := by
  obtain ⟨a, ha⟩ : ∃ a : TempFdArray (Entry ℕ) (Entry ℕ), new true = .ok a := ⟨_, rfl⟩
  obtain ⟨_, _, _, it, hit, hyields⟩ :=
    gives_back (.inl ha) pushes_fit (show Io.ok.readsOk from rfl)
  have hflushN : (a.pushAll pushes).flushN = 1 := by
    obtain rfl := Except.ok.inj ha
    decide +kernel
  have hlist : (pushes.map Prod.snd).drop (BUFFER_LENGTH * 1) ++
      (pushes.map Prod.snd).take (BUFFER_LENGTH * 1)
      = ⟨62, 1⟩ :: (List.range 62).map fun k => ⟨k, 1⟩ := by decide +kernel
  rw [hflushN, hlist] at hyields
  exact ⟨a, it, ha, hit, hyields⟩

end Pprof.TempFdArray
