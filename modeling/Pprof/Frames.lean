/-
Stacks: as the signal handler records them, and resolved to symbols.

`UnresolvedFrames`, `Symbol` and `Frames` follow `frames.rs`.  Two recorded
stacks are equal when their thread ids and the function addresses of their
frames are; the thread name and the time do not count.  Two symbols are equal
when their raw names are, and a resolved stack is compared by all its fields.

What unwinds and resolves a stack is a parameter (`Frame`), and so are the
demangler (`Demangle`) and the hasher of the standard library
(`DefaultHasher`).
-/
import Pprof.Timer

namespace Pprof

/-- `MAX_THREAD_NAME`. -/
def MAX_THREAD_NAME : ℕ := 16

/-! ### Strings from bytes -/

/-- A byte that continues a character in UTF-8. -/
def isContinuation (b : UInt8) : Bool := b &&& 0xC0 == 0x80

/-- The number of bytes of the character that starts with this byte. -/
def utf8CharWidth (b : UInt8) : ℕ :=
  if b < 0x80 then 1
  else if 0xC2 ≤ b && b ≤ 0xDF then 2
  else if 0xE0 ≤ b && b ≤ 0xEF then 3
  else if 0xF0 ≤ b && b ≤ 0xF4 then 4
  else 0

/-- Whether `b` may follow the first byte `a` of a longer character. -/
def isSecond (a b : UInt8) : Bool :=
  if a = 0xE0 then 0xA0 ≤ b && b ≤ 0xBF
  else if a = 0xED then 0x80 ≤ b && b ≤ 0x9F
  else if a = 0xF0 then 0x90 ≤ b && b ≤ 0xBF
  else if a = 0xF4 then 0x80 ≤ b && b ≤ 0x8F
  else isContinuation b

/-- The code point of a character, from its first byte without the width and
the bytes that continue it. -/
def codePoint (first : ℕ) (rest : List UInt8) : Char :=
  Char.ofNat (rest.foldl (fun n b => n * 64 + (b &&& 0x3F).toNat) first)

/-- The characters of `String::from_utf8_lossy`: each longest run of bytes that
starts a character and does not complete it becomes one replacement. -/
def lossyChars : List UInt8 → List Char
  | [] => []
  | a :: bs =>
    if utf8CharWidth a = 1 then Char.ofNat a.toNat :: lossyChars bs
    else if utf8CharWidth a = 0 then '\uFFFD' :: lossyChars bs
    else
      match bs with
      | [] => ['\uFFFD']
      | b :: cs =>
        if !isSecond a b then '\uFFFD' :: lossyChars (b :: cs)
        else if utf8CharWidth a = 2 then codePoint (a &&& 0x1F).toNat [b] :: lossyChars cs
        else
          match cs with
          | [] => ['\uFFFD']
          | c :: ds =>
            if !isContinuation c then '\uFFFD' :: lossyChars (c :: ds)
            else if utf8CharWidth a = 3 then
              codePoint (a &&& 0x0F).toNat [b, c] :: lossyChars ds
            else
              match ds with
              | [] => ['\uFFFD']
              | d :: es =>
                if !isContinuation d then '\uFFFD' :: lossyChars (d :: es)
                else codePoint (a &&& 0x07).toNat [b, c, d] :: lossyChars es

/-- `String::from_utf8_lossy`. -/
def fromUtf8Lossy (bs : List UInt8) : String := String.ofList (lossyChars bs)

example : fromUtf8Lossy [0x66, 0xC3, 0xA9, 0xE2, 0x82, 0x41, 0xFF] = "fé\uFFFDA\uFFFD" := by
  decide

/-! ### Equality by a key -/

/-- An equality that compares by a key is an equivalence. -/
theorem equivBEq_of_key {α β : Type*} [BEq α] (key : α → β)
    (h : ∀ a b : α, a == b ↔ key a = key b) : EquivBEq α where
  rfl := (h _ _).mpr rfl
  symm hab := (h _ _).mpr ((h _ _).mp hab).symm
  trans hab hbc := (h _ _).mpr (((h _ _).mp hab).trans ((h _ _).mp hbc))

/-- Lists whose elements are compared by a key are compared by their keys. -/
theorem list_beq_iff {α β : Type*} [BEq α] {key : α → β}
    (h : ∀ a b : α, a == b ↔ key a = key b) :
    ∀ l l' : List α, l == l' ↔ l.map key = l'.map key := by
  intro l
  induction l with
  | nil =>
    intro l'
    cases l' with
    | nil => simp
    | cons b l' => simp
  | cons a l ih =>
    intro l'
    cases l' with
    | nil => simp
    | cons b l' => simp [h a b, ih l']

/-! ### Symbols -/

/-- A symbol; the name is not demangled. -/
structure Symbol where
  name : Option (List UInt8)
  addr : Option ℕ
  lineno : Option UInt32
  filename : Option (List UInt8)
  deriving DecidableEq

/-- The demangler. -/
class Demangle where
  demangle : String → String

namespace Symbol

/-- `Symbol::raw_name`; the bytes are those of `Unknown` when there is no name. -/
def rawName (s : Symbol) : List UInt8 :=
  s.name.getD [0x55, 0x6E, 0x6B, 0x6E, 0x6F, 0x77, 0x6E]

/-- `Symbol::sys_name`. -/
def sysName (s : Symbol) : String := fromUtf8Lossy s.rawName

/-- The demangled name, the source's `Symbol::name`. -/
def demangledName [Demangle] (s : Symbol) : String := Demangle.demangle s.sysName

/-- The source's method `Symbol::filename`. -/
def fileName (s : Symbol) : String := (s.filename.map fromUtf8Lossy).getD "Unknown"

/-- The source's method `Symbol::lineno`. -/
def lineNumber (s : Symbol) : UInt32 := s.lineno.getD 0

instance : BEq Symbol := ⟨fun s t => s.rawName == t.rawName⟩

theorem beq_iff (s t : Symbol) : s == t ↔ s.rawName = t.rawName :=
  beq_iff_eq (a := s.rawName)

end Symbol

/-! ### Recorded stacks -/

/-- What the unwinder gives for a frame. -/
class Frame (F : Type*) where
  ip : F → ℕ
  symbolAddress : F → ℕ
  resolveSymbol : F → List Symbol

/-- A thread name the handler passes on. -/
abbrev ThreadName := {tn : List UInt8 // tn.length ≤ MAX_THREAD_NAME}

/-- A stack as it was recorded; the thread name fills a part of its array. -/
structure UnresolvedFrames (F : Type*) where
  frames : List F
  threadName : List UInt8
  threadNameLength : ℕ
  threadId : UInt64
  sampleTimestamp : SystemTime
  threadName_length : threadName.length = MAX_THREAD_NAME
  threadNameLength_le : threadNameLength ≤ MAX_THREAD_NAME
  deriving DecidableEq

/-- The hasher of the standard library, on the words written to it. -/
class DefaultHasher where
  finish : List ℕ → UInt64

/-! The hasher of the standard library is SipHash with one round for each word
and three at the end, with zero keys.  Nothing depends on it; it is written out
so that runs on given stacks can be evaluated. -/

def sipRound : UInt64 × UInt64 × UInt64 × UInt64 → UInt64 × UInt64 × UInt64 × UInt64
  | (v0, v1, v2, v3) =>
    let rotl (x n : UInt64) := (x <<< n) ||| (x >>> (64 - n))
    let v0 := v0 + v1
    let v1 := rotl v1 13 ^^^ v0
    let v0 := rotl v0 32
    let v2 := v2 + v3
    let v3 := rotl v3 16 ^^^ v2
    let v0 := v0 + v3
    let v3 := rotl v3 21 ^^^ v0
    let v2 := v2 + v1
    let v1 := rotl v1 17 ^^^ v2
    (v0, v1, rotl v2 32, v3)

def sipWord : UInt64 × UInt64 × UInt64 × UInt64 → UInt64 → UInt64 × UInt64 × UInt64 × UInt64
  | (v0, v1, v2, v3), m =>
    let (v0, v1, v2, v3) := sipRound (v0, v1, v2, v3 ^^^ m)
    (v0 ^^^ m, v1, v2, v3)

def sipHash (words : List ℕ) : UInt64 :=
  let start := (0x736f6d6570736575, 0x646f72616e646f6d, 0x6c7967656e657261, 0x7465646279746573)
  let v := words.foldl (fun v word => sipWord v (UInt64.ofNat word)) start
  let (v0, v1, v2, v3) := sipWord v (UInt64.ofNat (words.length * 8 % 256) <<< 56)
  let (v0, v1, v2, v3) := sipRound (sipRound (sipRound (v0, v1, v2 ^^^ 0xff, v3)))
  v0 ^^^ v1 ^^^ v2 ^^^ v3

example : sipHash [] = 15130871412783076140 := by decide +kernel

@[reducible] def DefaultHasher.sip : DefaultHasher := ⟨sipHash⟩

namespace UnresolvedFrames

variable {F : Type*}

/-- `UnresolvedFrames::new`. -/
def new (frames : List F) (tn : ThreadName) (threadId : UInt64) (sampleTimestamp : SystemTime) :
    UnresolvedFrames F where
  frames := frames
  threadName := tn.1 ++ List.replicate (MAX_THREAD_NAME - tn.1.length) 0
  threadNameLength := tn.1.length
  threadId := threadId
  sampleTimestamp := sampleTimestamp
  threadName_length := by
    rw [List.length_append, List.length_replicate, Nat.add_sub_cancel' tn.2]
  threadNameLength_le := tn.2

instance : Inhabited (UnresolvedFrames F) := ⟨new [] ⟨[], Nat.zero_le _⟩ 0 0⟩

variable [Frame F]

/-- What recorded stacks are compared and hashed by. -/
def key (u : UnresolvedFrames F) : List ℕ × UInt64 :=
  (u.frames.map Frame.symbolAddress, u.threadId)

instance : BEq (UnresolvedFrames F) where
  beq u v :=
    if u.threadId != v.threadId || u.frames.length != v.frames.length then false
    else (u.frames.zip v.frames).all fun p => Frame.symbolAddress p.1 == Frame.symbolAddress p.2

theorem zip_all_eq (xs ys : List F) (h : xs.length = ys.length) :
    ((xs.zip ys).all fun p => Frame.symbolAddress p.1 == Frame.symbolAddress p.2) = true ↔
      xs.map Frame.symbolAddress = ys.map Frame.symbolAddress := by
  induction xs generalizing ys with
  | nil =>
    cases ys with
    | nil => simp
    | cons y ys => simp at h
  | cons x xs ih =>
    cases ys with
    | nil => simp at h
    | cons y ys =>
      have hlen : xs.length = ys.length := by simpa using h
      simp [ih ys hlen]

/-- Recorded stacks are equal when their thread ids and function addresses are. -/
theorem beq_iff {u v : UnresolvedFrames F} : u == v ↔ u.key = v.key := by
  show (if u.threadId != v.threadId || u.frames.length != v.frames.length then false
    else (u.frames.zip v.frames).all
      fun p => Frame.symbolAddress p.1 == Frame.symbolAddress p.2) = true ↔ _
  by_cases hid : u.threadId = v.threadId
  · by_cases hlen : u.frames.length = v.frames.length
    · rw [if_neg (by simp [hid, hlen]), zip_all_eq _ _ hlen]
      simp [key, hid]
    · rw [if_pos (by simp [hlen])]
      constructor
      · intro h
        cases h
      · intro h
        have hmap := congrArg List.length (congrArg Prod.fst h)
        simp only [key, List.length_map] at hmap
        exact absurd hmap hlen
  · rw [if_pos (by simp [hid])]
    constructor
    · intro h
      cases h
    · intro h
      exact absurd (congrArg Prod.snd h) hid

instance : EquivBEq (UnresolvedFrames F) := equivBEq_of_key key fun _ _ => beq_iff

instance [DefaultHasher] : Hashable (UnresolvedFrames F) where
  hash u := DefaultHasher.finish (u.frames.map Frame.symbolAddress ++ [u.threadId.toNat])

/-- Equal recorded stacks hash equally. -/
theorem hash_eq_of_beq [DefaultHasher] {u v : UnresolvedFrames F} (h : u == v) :
    hash u = hash v := by
  obtain ⟨hframes, hid⟩ := Prod.mk.inj (beq_iff.mp h)
  show DefaultHasher.finish _ = DefaultHasher.finish _
  rw [hframes, hid]

end UnresolvedFrames

/-! ### Resolved stacks -/

/-- A stack resolved to symbols: for each frame the symbols inlined at it. -/
structure Frames where
  frames : List (List Symbol)
  threadName : String
  threadId : UInt64
  sampleTimestamp : SystemTime
  deriving DecidableEq

namespace Frames

instance : BEq Frames where
  beq f g := f.frames == g.frames && f.threadName == g.threadName && f.threadId == g.threadId &&
    f.sampleTimestamp == g.sampleTimestamp

/-- What resolved stacks are compared by. -/
def key (f : Frames) : List (List (List UInt8)) × String × UInt64 × SystemTime :=
  (f.frames.map fun symbols => symbols.map Symbol.rawName, f.threadName, f.threadId,
    f.sampleTimestamp)

/-- What lists of frames are compared by. -/
def rawNames (frames : List (List Symbol)) : List (List (List UInt8)) :=
  frames.map fun symbols => symbols.map Symbol.rawName

theorem frames_beq_iff (frames frames' : List (List Symbol)) :
    frames == frames' ↔ rawNames frames = rawNames frames' :=
  list_beq_iff (list_beq_iff Symbol.beq_iff) frames frames'

instance : EquivBEq (List (List Symbol)) := equivBEq_of_key rawNames frames_beq_iff

theorem beq_iff (f g : Frames) : f == g ↔ f.key = g.key := by
  have hframes : f.frames == g.frames ↔ _ := frames_beq_iff f.frames g.frames
  show (f.frames == g.frames && f.threadName == g.threadName && f.threadId == g.threadId &&
    f.sampleTimestamp == g.sampleTimestamp) = true ↔ _
  simp [key, hframes, rawNames, and_assoc]

instance : EquivBEq Frames := equivBEq_of_key key beq_iff

/-- `Frames::thread_name_or_id`. -/
def threadNameOrId (f : Frames) : String :=
  if f.threadName ≠ "" then f.threadName else toString f.threadId.toNat

variable {F : Type*} [Frame F] [Demangle]

/-- The name of the signal handler; macOS prepends an underscore. -/
def isHandler (s : Symbol) : Bool :=
  s.demangledName == "perf_signal_handler" || s.demangledName == "_perf_signal_handler"

/-- The symbols of one frame; `perfmap` is `resolve_in_perfmap` as it answers
at this frame. -/
def symbols (perfmap : ℕ → Option Symbol) (frame : F) : List Symbol :=
  match perfmap (Frame.ip frame) with
  | some symbol => [symbol]
  | none => Frame.resolveSymbol frame

/-- The loop of `Frames::from`, at position `n` of the stack: the frame of the
handler and the next one are left out, and so are frames without symbols. -/
def resolve (perfmap : ℕ → ℕ → Option Symbol) : ℕ → List F → List (List Symbol)
  | _, [] => []
  | n, frame :: rest =>
    if (symbols (perfmap n) frame).any isHandler then
      -- the handler is left out with the frame after it
      match rest with
      | [] => []
      | _ :: rest => resolve perfmap (n + 2) rest
    else if (symbols (perfmap n) frame).isEmpty then resolve perfmap (n + 1) rest
    else symbols (perfmap n) frame :: resolve perfmap (n + 1) rest

/-- `Frames::from`; the map of the just-in-time symbols may change from frame
to frame. -/
def ofUnresolved (perfmap : ℕ → ℕ → Option Symbol) (u : UnresolvedFrames F) : Frames where
  frames := resolve perfmap 0 u.frames
  threadName := fromUtf8Lossy (u.threadName.take u.threadNameLength)
  threadId := u.threadId
  sampleTimestamp := u.sampleTimestamp

end Frames

end Pprof
