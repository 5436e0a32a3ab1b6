/-
Files of bytes, and values stored in them by their memory image.

`File` is an open file: its contents and the offset of the handle.  Writing
happens at the offset and may stop short: `Room` says how many bytes the
device still takes, so a failed write leaves a prefix of its bytes behind.
A write past the end fills the gap with zero bytes.

`Layout T B` describes the memory image of a type: the `size` bytes of a value,
and what such bytes are read as.  In a `PlainLayout` reading the image of a value
gives the value: it owns nothing outside its bytes.  The type of bytes is a
parameter; with a symbolic `B` every type has a plain layout.

* `ofLittleEndian_littleEndian` — the bytes of a number, read back;
* `readList_imageList` — the images of a list of plain values, read back, are the
  values;
* `writeAll_ok`, `length_writeAll_lt` — what a complete and an incomplete
  write at the end of a file do.
-/
import Mathlib

namespace ByteFile

/-- How many more bytes the device takes: all of them, or only so many before
the next write fails. -/
inductive Room where
  | unlimited
  | only (n : ℕ)
  deriving DecidableEq

/-- Whether `n` more bytes fit. -/
def Room.fits : Room → ℕ → Bool
  | .unlimited, _ => true
  | .only m, n => n ≤ m

/-- The memory image of the values of `T`.  What the bytes of a value are read as
may be another value, if what it owns elsewhere is gone by then. -/
class Layout (T B : Type*) where
  size : ℕ
  size_pos : 0 < size
  image : T → List B
  read : List B → T
  /-- The byte that fills the hole a write past the end leaves. -/
  zero : B
  length_image : ∀ t, (image t).length = size

/-- All there is of a value is in its bytes. -/
class PlainLayout (T B : Type*) extends Layout T B where
  read_image : ∀ t, read (image t) = t

/-- The layout with one symbolic byte for each value. -/
@[reducible] def PlainLayout.cell (T : Type*) [Inhabited T] : PlainLayout T T where
  size := 1
  size_pos := Nat.one_pos
  image t := [t]
  read bs := bs.headI
  zero := default
  length_image _ := rfl
  read_image _ := rfl

/-! ### Numbers -/

/-- The lowest `k` bytes of a number, the low byte first. -/
def littleEndian : ℕ → ℕ → List UInt8
  | 0, _ => []
  | k + 1, n => UInt8.ofNat n :: littleEndian k (n / 256)

/-- The number whose bytes are given, the low byte first. -/
def ofLittleEndian : List UInt8 → ℕ
  | [] => 0
  | b :: bs => b.toNat + 256 * ofLittleEndian bs

theorem length_littleEndian (k n : ℕ) : (littleEndian k n).length = k := by
  induction k generalizing n with
  | zero => rfl
  | succ k ih => rw [littleEndian, List.length_cons, ih]

theorem ofLittleEndian_littleEndian (k n : ℕ) :
    ofLittleEndian (littleEndian k n) = n % 256 ^ k := by
  induction k generalizing n with
  | zero => rw [littleEndian, ofLittleEndian, pow_zero, Nat.mod_one]
  | succ k ih =>
    have hbyte : (UInt8.ofNat n).toNat = n % 256 := UInt8.toNat_ofNat'
    rw [littleEndian, ofLittleEndian, ih, hbyte, pow_succ', Nat.mod_mul]

/-- An unsigned machine word. -/
instance layoutUInt64 : PlainLayout UInt64 UInt8 where
  size := 8
  size_pos := by decide
  image n := littleEndian 8 n.toNat
  read bs := UInt64.ofNat (ofLittleEndian bs)
  zero := 0
  length_image n := length_littleEndian 8 n.toNat
  read_image n := by
    have hlt : n.toNat % 256 ^ 8 = n.toNat := Nat.mod_eq_of_lt n.toNat_lt
    rw [ofLittleEndian_littleEndian, hlt, UInt64.ofNat_toNat]

/-! ### Arrays of values -/

section Layout

variable {T : Type*} (B : Type*) [Layout T B]

/-- The memory image of an array. -/
def imageList (ts : List T) : List B := ts.flatMap Layout.image

variable {B}

/-- The bytes `bs` seen as an array of `n` values. -/
def readArray (T : Type*) [Layout T B] : ℕ → List B → List T
  | 0, _ => []
  | n + 1, bs =>
    Layout.read (bs.take (Layout.size T B)) :: readArray T n (bs.drop (Layout.size T B))

/-- The bytes `bs` seen as an array of as many values as they have room for. -/
def readList (T : Type*) [Layout T B] (bs : List B) : List T :=
  readArray T (bs.length / Layout.size T B) bs

theorem length_readArray (n : ℕ) (bs : List B) : (readArray T n bs).length = n := by
  induction n generalizing bs with
  | zero => rfl
  | succ n ih => rw [readArray, List.length_cons, ih]

@[simp] theorem length_readList (bs : List B) :
    (readList T bs).length = bs.length / Layout.size T B := length_readArray _ _

variable (B) in
@[simp] theorem length_imageList (ts : List T) :
    (imageList B ts).length = ts.length * Layout.size T B := by
  induction ts with
  | nil => simp [imageList]
  | cons t ts ih =>
    rw [imageList, List.flatMap_cons, List.length_append, Layout.length_image, List.length_cons,
      ← imageList, ih, Nat.succ_mul, Nat.add_comm]

@[simp] theorem imageList_append (ts ts' : List T) :
    imageList B (ts ++ ts') = imageList B ts ++ imageList B ts' :=
  List.flatMap_append

end Layout

section PlainLayout

variable {T B : Type*} [PlainLayout T B]

theorem readArray_imageList (ts : List T) : readArray T ts.length (imageList B ts) = ts := by
  induction ts with
  | nil => rfl
  | cons t ts ih =>
    have himage : (Layout.image t : List B).length = Layout.size T B := Layout.length_image t
    rw [List.length_cons, readArray, imageList, List.flatMap_cons,
      List.take_left' himage, List.drop_left' himage, PlainLayout.read_image]
    exact congrArg _ ih

/-- An array read back from its memory image is the array. -/
theorem readList_imageList (ts : List T) : readList T (imageList B ts) = ts := by
  rw [readList, length_imageList, Nat.mul_div_cancel _ Layout.size_pos]
  exact readArray_imageList ts

end PlainLayout

/-! ### Files -/

/-- An open file: its contents and the offset of the handle. -/
structure File (B : Type*) where
  contents : List B
  offset : ℕ
  deriving DecidableEq

namespace File

variable {B : Type*}

/-- A new, empty file. -/
def new : File B := ⟨[], 0⟩

/-- Write `bs` at the offset, over what is there; `zero` fills a gap. -/
def write (zero : B) (f : File B) (bs : List B) : File B where
  contents := f.contents.take f.offset ++ List.replicate (f.offset - f.contents.length) zero ++
    bs ++ f.contents.drop (f.offset + bs.length)
  offset := f.offset + bs.length

/-- Write all of `bs`, or as much as there is room for.  The answer says
whether all of it was written. -/
def writeAll (zero : B) (room : Room) (f : File B) (bs : List B) : Bool × File B :=
  match room with
  | .unlimited => (true, f.write zero bs)
  | .only n => if bs.length ≤ n then (true, f.write zero bs) else (false, f.write zero (bs.take n))

/-- Cut the file to `n` bytes, or extend it with zero bytes; the offset stays. -/
def setLen (zero : B) (f : File B) (n : ℕ) : File B :=
  { f with contents := f.contents.take n ++ List.replicate (n - f.contents.length) zero }

/-- Set the offset. -/
def seek (f : File B) (n : ℕ) : File B := { f with offset := n }

/-- The first `n` bytes, `none` where the file has fewer. -/
def readExact (f : File B) (n : ℕ) : Option (List B) :=
  if n ≤ f.contents.length then some (f.contents.take n) else none

/-- The handle stands at the end of the file. -/
def AtEnd (f : File B) : Prop := f.offset = f.contents.length

theorem write_contents {f : File B} (h : f.AtEnd) (zero : B) (bs : List B) :
    (f.write zero bs).contents = f.contents ++ bs := by
  rw [write, h, Nat.sub_self, List.take_length, List.replicate_zero, List.append_nil,
    List.drop_eq_nil_of_le (by omega), List.append_nil]

theorem atEnd_write {f : File B} (h : f.AtEnd) (zero : B) (bs : List B) :
    (f.write zero bs).AtEnd := by
  rw [AtEnd, write_contents h, List.length_append, ← h]
  rfl

theorem atEnd_writeAll {f : File B} (h : f.AtEnd) (zero : B) (room : Room) (bs : List B) :
    (f.writeAll zero room bs).2.AtEnd := by
  unfold writeAll
  cases room with
  | unlimited => exact atEnd_write h zero bs
  | only n =>
    by_cases hn : bs.length ≤ n
    · simpa only [if_pos hn] using atEnd_write h zero bs
    · simpa only [if_neg hn] using atEnd_write h zero (bs.take n)

theorem writeAll_fst (zero : B) (room : Room) (f : File B) (bs : List B) :
    (f.writeAll zero room bs).1 = room.fits bs.length := by
  cases room with
  | unlimited => rfl
  | only n => by_cases hn : bs.length ≤ n <;> simp [writeAll, Room.fits, hn]

/-- A write that fits appends all its bytes. -/
theorem writeAll_ok {f : File B} (h : f.AtEnd) {zero : B} {room : Room} {bs : List B}
    (hr : room.fits bs.length) : (f.writeAll zero room bs).2.contents = f.contents ++ bs := by
  cases room with
  | unlimited => exact write_contents h zero bs
  | only n =>
    rw [writeAll, if_pos (by simpa [Room.fits] using hr)]
    exact write_contents h zero bs

/-- A write over the bytes that follow the offset leaves those behind it. -/
theorem writeAll_over {f : File B} {pre rest : List B} (h : f.contents = pre ++ rest)
    (ho : f.offset = pre.length) {zero : B} {room : Room} {bs : List B}
    (hr : room.fits bs.length) :
    (f.writeAll zero room bs).2 = ⟨pre ++ bs ++ rest.drop bs.length, pre.length + bs.length⟩ := by
  have hwrite : f.write zero bs = ⟨pre ++ bs ++ rest.drop bs.length, pre.length + bs.length⟩ := by
    have hgap : pre.length - (pre ++ rest).length = 0 := by
      rw [List.length_append]
      omega
    rw [write, h, ho, hgap, List.take_left, List.replicate_zero, List.append_nil,
      List.drop_append, List.drop_eq_nil_of_le (Nat.le_add_right _ _), List.nil_append,
      Nat.add_sub_cancel_left]
  cases room with
  | unlimited => exact hwrite
  | only n =>
    rw [writeAll, if_pos (by simpa [Room.fits] using hr)]
    exact hwrite

/-- A write that does not fit appends fewer bytes than it was given. -/
theorem length_writeAll_lt {f : File B} (h : f.AtEnd) {zero : B} {room : Room} {bs : List B}
    (hr : room.fits bs.length = false) :
    (f.writeAll zero room bs).2.contents.length < f.contents.length + bs.length := by
  cases room with
  | unlimited => exact absurd hr (by simp [Room.fits])
  | only n =>
    have hn : ¬ bs.length ≤ n := by simpa [Room.fits] using hr
    rw [writeAll, if_neg hn, write_contents h, List.length_append, List.length_take]
    omega

end File

end ByteFile
