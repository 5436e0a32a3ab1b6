/-
The overflow array: a buffer in memory, backed by a temporary file.

`TempFdArray` follows `collector.rs`.  Entries are pushed into a buffer of
`BUFFER_LENGTH` slots; a push that finds the buffer full first writes the
memory image of the whole buffer to the file.  Reading yields the entries of
the buffer and then those of the file.  The operations of the file may fail:
`Io` says how each of them answers in one call, and a failing write may have
written any proper prefix of its bytes.

* `push_cases` — everything `push` can do;
* `Stores.push`, `clear_stores`, `Stores.tryIter` — without failures the array
  holds what was pushed since the last `clear`;
* `needed`, `tryIter_eq_ok` — reading back succeeds exactly when the file has
  the bytes that `flush_n` promises.
-/
import Pprof.ByteFile

open ByteFile

namespace Pprof

/-- How the file operations of one call answer. -/
structure Io where
  write : Room := .unlimited
  reopen : Bool := true
  read : Bool := true
  seekEnd : Bool := true
  setLen : Bool := true
  seek : Bool := true
  deriving DecidableEq

/-- All file operations succeed. -/
def Io.ok : Io := {}

/-- All file operations succeed, but the write has only this much room. -/
def Io.writing (room : Room) : Io := { write := room }

/-- The operations that reading back uses succeed. -/
def Io.readsOk (io : Io) : Bool := io.reopen && io.read && io.seekEnd

/-- The operations that clearing uses succeed. -/
def Io.clearsOk (io : Io) : Bool := io.setLen && io.seek

/-- `std::io::Error`: an operation failed, or the file was too short to read. -/
inductive IoError where
  | os
  | unexpectedEof
  deriving DecidableEq

/-- What the build fixes: `size_of::<Entry<UnresolvedFrames>>()`, `MAX_DEPTH`
and whether the feature `frame-pointer` is on. -/
class Target where
  entrySize : ℕ
  entrySize_pos : 0 < entrySize
  entrySize_le : entrySize ≤ 2 ^ 18
  maxDepth : ℕ
  framePointer : Bool

/-- A 64-bit Linux build with the default unwinder and depth: 128 frames of 32
bytes. -/
@[reducible] def Target.linux : Target := ⟨4168, by decide, by decide, 128, false⟩

/-- A build with the feature `large-depth`: the buffer has seven slots. -/
@[reducible] def Target.largeDepth : Target := ⟨32840, by decide, by decide, 1024, false⟩

variable [Target]

/-- `BUFFER_LENGTH`: the number of slots of the buffer. -/
def BUFFER_LENGTH : ℕ := 2 ^ 18 / Target.entrySize

theorem BUFFER_LENGTH_pos : 0 < BUFFER_LENGTH :=
  Nat.div_pos Target.entrySize_le Target.entrySize_pos

/-- `TempFdArray`; the slots of the buffer from `bufferIndex` on are stale. -/
structure TempFdArray (T B : Type*) where
  file : File B
  buffer : List T
  bufferIndex : ℕ
  flushN : ℕ
  buffer_length : buffer.length = BUFFER_LENGTH
  bufferIndex_le : bufferIndex ≤ BUFFER_LENGTH

namespace TempFdArray

variable {T B : Type*}

/-- `TempFdArray::new`; the temporary file may not be created. -/
def new [Inhabited T] (tempfile : Bool) : Except IoError (TempFdArray T B) :=
  if tempfile then
    .ok {
      file := File.new
      buffer := List.replicate BUFFER_LENGTH default
      bufferIndex := 0
      flushN := 0
      buffer_length := List.length_replicate
      bufferIndex_le := Nat.zero_le _ }
  else .error .os

/-- `self.buffer_index = 0`, with the new value of `flush_n`. -/
def rewind (a : TempFdArray T B) (flushN : ℕ) : TempFdArray T B :=
  { a with bufferIndex := 0, flushN := flushN, bufferIndex_le := Nat.zero_le _ }

/-- `self.buffer[self.buffer_index] = entry; self.buffer_index += 1`. -/
def store (a : TempFdArray T B) (h : a.bufferIndex < BUFFER_LENGTH) (entry : T) :
    TempFdArray T B :=
  { a with
    buffer := a.buffer.set a.bufferIndex entry
    bufferIndex := a.bufferIndex + 1
    buffer_length := by rw [List.length_set, a.buffer_length]
    bufferIndex_le := h }

/-- The part of the buffer that holds entries. -/
def buffered (a : TempFdArray T B) : List T := a.buffer.take a.bufferIndex

theorem buffered_store (a : TempFdArray T B) (h : a.bufferIndex < BUFFER_LENGTH) (entry : T) :
    (a.store h entry).buffered = a.buffered ++ [entry] := by
  have hlen : a.bufferIndex < a.buffer.length := a.buffer_length ▸ h
  simp only [buffered, store]
  rw [List.take_add_one, List.take_set_of_le (Nat.le_refl _), List.getElem?_set_self hlen]
  rfl

theorem buffered_of_full {a : TempFdArray T B} (h : ¬ a.bufferIndex < BUFFER_LENGTH) :
    a.buffered = a.buffer := by
  have hlen := a.buffer_length
  exact List.take_of_length_le (by omega)

variable [Layout T B]

/-- `TempFdArray::clear`. -/
def clear (io : Io) (a : TempFdArray T B) : Except IoError Unit × TempFdArray T B :=
  -- the counters are reset before the file is touched
  let a := a.rewind 0
  if io.setLen then
    let a := { a with file := a.file.setLen (Layout.zero T) 0 }
    if io.seek then (.ok (), { a with file := a.file.seek 0 }) else (.error .os, a)
  else (.error .os, a)

/-- The state after `flush_buffer`, whatever the write answered. -/
def flushed (io : Io) (a : TempFdArray T B) : TempFdArray T B :=
  { a.rewind (a.flushN + 1) with
    file := (a.file.writeAll (Layout.zero T) io.write (imageList B a.buffer)).2 }

theorem flushed_lt (io : Io) (a : TempFdArray T B) :
    (a.flushed io).bufferIndex < BUFFER_LENGTH := BUFFER_LENGTH_pos

/-- `TempFdArray::flush_buffer`: the counters move before the write. -/
def flushBuffer (io : Io) (a : TempFdArray T B) : Except IoError Unit × TempFdArray T B :=
  if (a.file.writeAll (Layout.zero T) io.write (imageList B a.buffer)).1 then
    (.ok (), a.flushed io)
  else (.error .os, a.flushed io)

/-- `TempFdArray::push`. -/
def push (io : Io) (a : TempFdArray T B) (entry : T) : Except IoError Unit × TempFdArray T B :=
  if h : a.bufferIndex < BUFFER_LENGTH then (.ok (), a.store h entry)
  else
    match (a.flushBuffer io).1 with
    | .ok () => (.ok (), (a.flushed io).store (a.flushed_lt io) entry)
    -- the entry is lost with the buffer
    | .error err => (.error err, a.flushed io)

/-- What `push` drops: the value in the slot that is written to, or the entry
itself.  A flush leaves the values in their slots. -/
def dropped (io : Io) (a : TempFdArray T B) (entry : T) : List T :=
  if a.bufferIndex < BUFFER_LENGTH then (a.buffer[a.bufferIndex]?).toList
  else
    match (a.flushBuffer io).1 with
    | .ok () => (a.buffer[0]?).toList
    | .error _ => [entry]

/-- The number of bytes `try_iter` reads. -/
def needed (a : TempFdArray T B) : ℕ := BUFFER_LENGTH * a.flushN * Layout.size T B

/-- `TempFdArray::try_iter`: the entries the iterator yields. -/
def tryIter (io : Io) (a : TempFdArray T B) : Except IoError (List T) :=
  -- `reopen` makes a handle of its own, whose moves are not seen by the writer
  if io.reopen then
    if io.read then
      match a.file.readExact a.needed with
      | none => .error .unexpectedEof
      -- more bytes than needed may be there: only a prefix is read
      | some fileVec =>
        if io.seekEnd then .ok (a.buffered ++ readList T fileVec) else .error .os
    else .error .os
  else .error .os

theorem length_image_buffer (a : TempFdArray T B) :
    (imageList B a.buffer).length = BUFFER_LENGTH * Layout.size T B := by
  rw [length_imageList, a.buffer_length]

/-- What `push` does: store; or flush and store; or fail in the flush, which
drops the entry. -/
theorem push_cases (io : Io) (a : TempFdArray T B) (entry : T) :
    (∃ h : a.bufferIndex < BUFFER_LENGTH, a.push io entry = (.ok (), a.store h entry)) ∨
    (¬ a.bufferIndex < BUFFER_LENGTH ∧ io.write.fits (BUFFER_LENGTH * Layout.size T B) ∧
      a.push io entry = (.ok (), (a.flushed io).store (a.flushed_lt io) entry)) ∨
    (¬ a.bufferIndex < BUFFER_LENGTH ∧ io.write.fits (BUFFER_LENGTH * Layout.size T B) = false ∧
      a.push io entry = (.error .os, a.flushed io)) := by
  have hwrite := File.writeAll_fst (Layout.zero T) io.write a.file (imageList B a.buffer)
  rw [length_image_buffer] at hwrite
  unfold push
  by_cases h : a.bufferIndex < BUFFER_LENGTH
  · rw [dif_pos h]
    exact .inl ⟨h, rfl⟩
  · rw [dif_neg h, flushBuffer, hwrite]
    cases hfits : io.write.fits (BUFFER_LENGTH * Layout.size T B) with
    | true => exact .inr (.inl ⟨h, rfl, rfl⟩)
    | false => exact .inr (.inr ⟨h, rfl, rfl⟩)

/-- Reading back succeeds exactly when its operations do and the file is long
enough; it then yields the buffer and the values in the file. -/
theorem tryIter_eq_ok {io : Io} {a : TempFdArray T B} {ts : List T} :
    a.tryIter io = .ok ts ↔
      io.readsOk ∧ a.needed ≤ a.file.contents.length ∧
        ts = a.buffered ++ readList T (a.file.contents.take a.needed) := by
  unfold tryIter Io.readsOk
  cases io.reopen <;> cases io.read <;> cases io.seekEnd <;>
    by_cases h : a.needed ≤ a.file.contents.length <;>
    simp [File.readExact, h, eq_comm]

/-! ### Without failures -/

/-- The file holds the images of `fl`, a whole number of buffers, and the next
write appends to them. -/
structure Stores (a : TempFdArray T B) (fl : List T) : Prop where
  contents : a.file.contents = imageList B fl
  atEnd : a.file.AtEnd
  length : fl.length = BUFFER_LENGTH * a.flushN

theorem Stores.needed {a : TempFdArray T B} {fl : List T} (h : a.Stores fl) :
    a.needed = a.file.contents.length := by
  rw [TempFdArray.needed, h.contents, length_imageList, h.length]

theorem Stores.tryIter {T B : Type*} [PlainLayout T B] {a : TempFdArray T B} {fl : List T}
    (h : a.Stores fl) {io : Io} (hio : io.readsOk) : a.tryIter io = .ok (a.buffered ++ fl) := by
  refine tryIter_eq_ok.mpr ⟨hio, h.needed.le, ?_⟩
  rw [h.needed, List.take_length, h.contents, readList_imageList]

theorem clear_stores (a : TempFdArray T B) {io : Io} (hio : io.clearsOk) :
    (a.clear io).1 = .ok () ∧ (a.clear io).2.Stores [] ∧ (a.clear io).2.buffered = [] := by
  obtain ⟨hset, hseek⟩ : io.setLen = true ∧ io.seek = true := by
    simpa [Io.clearsOk] using hio
  rw [TempFdArray.clear, if_pos hset, if_pos hseek]
  exact ⟨rfl, ⟨by simp [File.seek, File.setLen, imageList],
    by simp [File.AtEnd, File.seek, File.setLen], by simp [rewind]⟩, List.take_zero⟩

/-- Whatever fails, clearing forgets the buffer and the flushes. -/
theorem clear_rewinds (io : Io) (a : TempFdArray T B) :
    (a.clear io).2.bufferIndex = 0 ∧ (a.clear io).2.flushN = 0 := by
  rw [clear]
  cases io.setLen with
  | false => exact ⟨rfl, rfl⟩
  | true => cases io.seek <;> exact ⟨rfl, rfl⟩

theorem clear_fails {io : Io} (a : TempFdArray T B) (hio : io.clearsOk = false) :
    (a.clear io).1 = .error .os := by
  rw [clear]
  cases hset : io.setLen with
  | false => rfl
  | true =>
    cases hseek : io.seek with
    | false => rfl
    | true => simp [Io.clearsOk, hset, hseek] at hio

/-- A push whose write succeeds adds its entry to what the array holds. -/
theorem Stores.push {a : TempFdArray T B} {fl : List T} (h : a.Stores fl) {io : Io}
    (hio : io.write.fits (BUFFER_LENGTH * Layout.size T B)) (entry : T) :
    (a.push io entry).1 = .ok () ∧ ∃ fl', (a.push io entry).2.Stores fl' ∧
      ((a.push io entry).2.buffered ++ fl').Perm (entry :: (a.buffered ++ fl)) := by
  rcases a.push_cases io entry with ⟨hroom, hp⟩ | ⟨hfull, _, hp⟩ | ⟨_, hfits, _⟩
  · rw [hp]
    refine ⟨rfl, fl, ⟨h.contents, h.atEnd, h.length⟩, ?_⟩
    rw [buffered_store, List.append_assoc]
    exact List.perm_middle
  · -- the buffer goes to the file, behind what is there
    rw [hp]
    have hio' : io.write.fits (imageList B a.buffer).length := by rwa [length_image_buffer]
    refine ⟨rfl, fl ++ a.buffer, ⟨?_, ?_, ?_⟩, ?_⟩
    · rw [imageList_append, ← h.contents]
      exact File.writeAll_ok h.atEnd hio'
    · exact File.atEnd_writeAll h.atEnd _ _ _
    · rw [List.length_append, h.length, a.buffer_length]
      exact (Nat.mul_succ _ _).symm
    · have hempty : (a.flushed io).buffered = [] := List.take_zero
      rw [buffered_store, hempty, buffered_of_full hfull]
      have hcomm : (fl ++ a.buffer).Perm (a.buffer ++ fl) := List.perm_append_comm
      exact hcomm.cons entry
  · exact absurd hio (by simp [hfits])

/-! ### After failed writes -/

/-- A push now finds the buffer full, and the write fails. -/
def writeFails (io : Io) (a : TempFdArray T B) : Bool :=
  !(a.bufferIndex < BUFFER_LENGTH) && !io.write.fits (BUFFER_LENGTH * Layout.size T B)

/-- A push whose write does not fail. -/
theorem push_eq_ok {a : TempFdArray T B} {io : Io} (h : a.writeFails io = false) (entry : T) :
    a.push io entry = a.push Io.ok entry := by
  by_cases hroom : a.bufferIndex < BUFFER_LENGTH
  · rw [push, push, dif_pos hroom, dif_pos hroom]
  · have hfits : io.write.fits (imageList B a.buffer).length = true := by
      rw [length_image_buffer]
      simpa [writeFails, hroom] using h
    have hwrite : a.file.writeAll (Layout.zero T) io.write (imageList B a.buffer)
        = a.file.writeAll (Layout.zero T) Io.ok.write (imageList B a.buffer) := by
      cases hio : io.write with
      | unlimited => rfl
      | only n =>
        rw [hio] at hfits
        exact if_pos (by simpa [Room.fits] using hfits)
    simp only [push, dif_neg hroom, flushBuffer, flushed, hwrite]

/-- The bytes that reading back misses grow with a failed write, and stay the
same otherwise. -/
theorem push_lag {a : TempFdArray T B} (h : a.file.AtEnd) (io : Io) (entry : T) :
    (a.push io entry).2.file.AtEnd ∧
    (a.writeFails io = false → (a.push io entry).2.needed + a.file.contents.length
      = a.needed + (a.push io entry).2.file.contents.length) ∧
    (a.writeFails io = true → a.needed + (a.push io entry).2.file.contents.length
      < (a.push io entry).2.needed + a.file.contents.length) := by
  have hneeded : (a.flushed io).needed = a.needed + BUFFER_LENGTH * Layout.size T B := by
    show BUFFER_LENGTH * (a.flushN + 1) * Layout.size T B = _
    rw [Nat.mul_succ, Nat.add_mul]
    rfl
  obtain ⟨hroom, hp⟩ | ⟨hfull, hfits, hp⟩ | ⟨hfull, hfits, hp⟩ := a.push_cases io entry
  · rw [hp]
    refine ⟨h, fun _ => rfl, fun hfails => ?_⟩
    simp [writeFails, hroom] at hfails
  · -- the whole buffer reaches the file
    rw [hp]
    have hio : io.write.fits (imageList B a.buffer).length := by rwa [length_image_buffer]
    have hlen : ((a.flushed io).store (a.flushed_lt io) entry).file.contents
        = a.file.contents ++ imageList B a.buffer := File.writeAll_ok h hio
    refine ⟨File.atEnd_writeAll h _ _ _, fun _ => ?_, fun hfails => ?_⟩
    · show (a.flushed io).needed + _ = _
      rw [hneeded, hlen, List.length_append, length_image_buffer]
      omega
    · simp [writeFails, hfits] at hfails
  · -- only a part of it does
    rw [hp]
    have hio : io.write.fits (imageList B a.buffer).length = false := by
      rw [length_image_buffer, hfits]
    have hlen : (a.flushed io).file.contents.length
        < a.file.contents.length + (imageList B a.buffer).length := File.length_writeAll_lt h hio
    rw [length_image_buffer] at hlen
    refine ⟨File.atEnd_writeAll h _ _ _, fun hfails => ?_, fun _ => ?_⟩
    · simp [writeFails, hfull, hfits] at hfails
    · show a.needed + (a.flushed io).file.contents.length < (a.flushed io).needed + _
      rw [hneeded]
      omega

end TempFdArray

end Pprof
