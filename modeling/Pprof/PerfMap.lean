/-
The perf map: the names of just-in-time compiled code.

`PerfMap` follows `perfmap.rs`.  A runtime that compiles while it runs appends
a line to a file for each piece of code it makes: where the code starts, how
long it is, and its name.  `LineReader` is the loop over the lines of the file
as the bytes come in, so that a reader can be stopped after any part of it
(`readBytes_append`).

A perf map answers for an address with the name of the first range around it;
the loop of `Frames::from` asks it before it asks the unwinder.
-/
import Pprof.Frames

namespace Pprof

/-! ### Text -/

/-- `String::from_utf8`: the characters, where reading them replaces nothing. -/
def fromUtf8 (bs : List UInt8) : Option (List Char) :=
  if (lossyChars bs).flatMap String.utf8EncodeChar = bs then some (lossyChars bs) else none

/-- `char::is_whitespace`. -/
def isWhiteSpace (c : Char) : Bool :=
  let n := c.toNat
  (0x09 ≤ n && n ≤ 0x0D) || n == 0x20 || n == 0x85 || n == 0xA0 || n == 0x1680 ||
    (0x2000 ≤ n && n ≤ 0x200A) || n == 0x2028 || n == 0x2029 || n == 0x202F || n == 0x205F ||
    n == 0x3000

/-- `str::split_whitespace`. -/
def splitWhitespace (s : List Char) : List (List Char) :=
  (s.splitOnP isWhiteSpace).filter fun part => !part.isEmpty

/-- `char::to_digit` with the radix 16. -/
def toHexDigit (c : Char) : Option ℕ :=
  if '0' ≤ c ∧ c ≤ '9' then some (c.toNat - '0'.toNat)
  else if 'a' ≤ c ∧ c ≤ 'f' then some (c.toNat - 'a'.toNat + 10)
  else if 'A' ≤ c ∧ c ≤ 'F' then some (c.toNat - 'A'.toNat + 10)
  else none

/-- One digit more of a `usize` of a 64-bit target. -/
def pushHexDigit (n : ℕ) (c : Char) : Option ℕ :=
  match toHexDigit c with
  | some digit => if n * 16 + digit < 2 ^ 64 then some (n * 16 + digit) else none
  | none => none

/-- `usize::from_str_radix` with the radix 16, which takes a leading `+`. -/
def fromHex (s : List Char) : Option ℕ :=
  let digits := if s.head? = some '+' then s.tail else s
  if digits.isEmpty then none else digits.foldlM pushHexDigit 0

/-! ### The file -/

/-- A range of addresses and its name. -/
abbrev PerfRange := ℕ × ℕ × String

/-- The range of a line; `none` where it is not UTF-8 or has no two numbers.
The sum of the numbers wraps around. -/
def perfRange (line : List UInt8) : Option PerfRange :=
  match (fromUtf8 line).map splitWhitespace with
  | some (start :: len :: name) =>
    match fromHex start, fromHex len with
    | some start, some len =>
      some (start, (start + len) % 2 ^ 64, String.ofList ([' '].intercalate name))
    | _, _ => none
  | _ => none

/-- The loop over the lines: the bytes of the line it is in, and the ranges of
the lines before. -/
structure LineReader where
  pending : List UInt8
  ranges : List PerfRange
  deriving DecidableEq

namespace LineReader

def new : LineReader := ⟨[], []⟩

/-- The line `line` is complete. -/
def endLine (line : List UInt8) (r : LineReader) : Option LineReader :=
  (perfRange line).map fun range => ⟨[], r.ranges ++ [range]⟩

/-- The next byte; a line ends with a line feed, or a carriage return and one. -/
def readByte (r : LineReader) (b : UInt8) : Option LineReader :=
  if b = 0x0A then
    r.endLine (if r.pending.getLast? = some 0x0D then r.pending.dropLast else r.pending)
  else some { r with pending := r.pending ++ [b] }

def readBytes (r : LineReader) (bs : List UInt8) : Option LineReader := bs.foldlM readByte r

/-- The reader is told that there are no more bytes: what it has of a line is
a line. -/
def atEof (r : LineReader) : Option LineReader :=
  if r.pending = [] then some r else r.endLine r.pending

theorem readBytes_append (r : LineReader) (bs bs' : List UInt8) :
    r.readBytes (bs ++ bs') = (r.readBytes bs).bind fun r => r.readBytes bs' :=
  List.foldlM_append

theorem atEof_pending {r r' : LineReader} (h : r.atEof = some r') : r'.pending = [] := by
  rw [atEof] at h
  split at h
  · rename_i hpending
    rw [← Option.some.inj h]
    exact hpending
  · rw [endLine, Option.map_eq_some_iff] at h
    obtain ⟨range, _, rfl⟩ := h
    rfl

end LineReader

/-- `PerfMap`. -/
structure PerfMap where
  ranges : List PerfRange
  deriving DecidableEq

namespace PerfMap

/-- `PerfMap::new`, for a file with these bytes. -/
def new (content : List UInt8) : Option PerfMap :=
  ((LineReader.new.readBytes content).bind LineReader.atEof).map fun r => ⟨r.ranges⟩

theorem new_eq_some {content : List UInt8} {r r' : LineReader}
    (h : LineReader.new.readBytes content = some r) (heof : r.atEof = some r') :
    new content = some ⟨r'.ranges⟩ := by
  rw [new, h, Option.bind_some, heof, Option.map_some]

theorem new_eq_none {content : List UInt8} {r : LineReader}
    (h : LineReader.new.readBytes content = some r) (heof : r.atEof = none) :
    new content = none := by
  rw [new, h, Option.bind_some, heof, Option.map_none]

/-- A file with a line that is not one does not parse, whatever comes after it. -/
theorem new_append_eq_none {content : List UInt8} (h : LineReader.new.readBytes content = none)
    (bs : List UInt8) : new (content ++ bs) = none := by
  rw [new, LineReader.readBytes_append, h, Option.bind_none, Option.bind_none, Option.map_none]

/-- `PerfMap::find`. -/
def find (m : PerfMap) (addr : ℕ) : Option String :=
  (m.ranges.find? fun range => range.1 ≤ addr && addr < range.2.1).map fun range => range.2.2

/-- The symbol of a name in a perf map. -/
def symbol (name : String) : Symbol :=
  ⟨some (name.toList.flatMap String.utf8EncodeChar), none, none, none⟩

end PerfMap

/-- `resolve_in_perfmap`, for what the resolver holds. -/
def resolveInPerfmap (resolver : Option PerfMap) (ip : ℕ) : Option Symbol :=
  (resolver.bind fun m => m.find ip).map PerfMap.symbol

example : PerfMap.new [0x31, 0x30, 0x20, 0x38, 0x20, 0x66, 0x20, 0x67, 0x0A]
    = some ⟨[(0x10, 0x18, "f g")]⟩ := by decide +kernel

end Pprof
