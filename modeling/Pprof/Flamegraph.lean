/-
The lines for the flamegraph generator.

`Report.lines` follows `flamegraph_with_options` in `report.rs`: each entry
becomes one line, the thread and the demangled names from the outermost frame to
the leaf, with semicolons between them, then a space and the count.  `readLine`
is how such a line is read: the count is behind the last space, and the rest is
cut at the semicolons.

* `line_eq` — the loops join the strings of the stack;
* `readLine_line` — what is read is the count and the cut of the joined strings;
* `readable_iff` — so the lines determine the stacks exactly when no thread or
  name contains a semicolon.
-/
import Pprof.Delimited
import Pprof.Report

open Delimited

namespace Pprof

variable [Demangle]

/-! ### Writing -/

/-- `String::pop`, without the character it returns. -/
def pop (s : String) : String := String.ofList s.toList.dropLast

/-- The line of one entry. -/
def Frames.line (key : Frames) (value : ℤ) : String :=
  let line := key.threadNameOrId.push ';'
  let line := key.frames.reverse.foldl (fun line frame =>
    frame.reverse.foldl (fun line symbol => line ++ symbol.demangledName ++ ";") line) line
  pop line ++ " " ++ toString value

/-- The lines that are given to the generator. -/
def Report.lines (r : Report) : List String := r.data.map fun entry => entry.1.line entry.2

/-! ### Reading -/

/-- The text before the count, and the count. -/
def countedText (line : String) : Option (String × ℤ) := do
  let (text, count) ← rsplitOnce ' ' line.toList
  let count ← (String.ofList count).toInt?
  some (String.ofList text, count)

/-- The strings of the stack and the count, as the generator reads them. -/
def readLine (line : String) : Option (List String × ℤ) := do
  let (text, count) ← countedText line
  some ((text.toList.splitOn ';').map String.ofList, count)

namespace Frames

/-- The thread, and the names from the outermost frame to the leaf. -/
def stackStrings (key : Frames) : List String :=
  key.threadNameOrId :: key.frames.flatten.reverse.map Symbol.demangledName

omit [Demangle] in
theorem pop_push (s : String) (c : Char) : pop (s.push c) = s := by
  rw [pop, String.toList_push, List.dropLast_concat, String.ofList_toList]

omit [Demangle] in
/-- Names with a semicolon behind each are names with semicolons between them. -/
theorem foldl_names (names : List String) (thread : String) :
    names.foldl (fun line name => line ++ name ++ ";") (thread.push ';')
      = (";".intercalate (thread :: names)).push ';' := by
  induction names generalizing thread with
  | nil => rw [List.foldl_nil, String.intercalate_singleton]
  | cons name names ih =>
    have hpush : thread.push ';' ++ name ++ ";" = (thread ++ ";" ++ name).push ';' := by
      refine String.toList_inj.mp ?_
      simp
    rw [List.foldl_cons, hpush, ih, String.intercalate_cons_append,
      String.intercalate_cons_cons]

/-- The loops over frames and inlined symbols, both from the end. -/
theorem foldl_frames (frames : List (List Symbol)) (line : String) :
    frames.reverse.foldl (fun line frame =>
        frame.reverse.foldl (fun line symbol => line ++ symbol.demangledName ++ ";") line) line
      = (frames.flatten.reverse.map Symbol.demangledName).foldl
          (fun line name => line ++ name ++ ";") line := by
  have hreverse : frames.flatten.reverse = frames.reverse.flatMap List.reverse := by
    rw [List.reverse_flatten, List.flatMap_def, List.map_reverse]
  rw [hreverse, List.foldl_map, List.foldl_flatMap]

theorem line_eq (key : Frames) (value : ℤ) :
    key.line value = ";".intercalate key.stackStrings ++ " " ++ toString value := by
  rw [line, foldl_frames, foldl_names, pop_push]
  rfl

omit [Demangle] in
/-- The digits of a count are no spaces. -/
theorem space_notMem (value : ℤ) : ' ' ∉ (toString value).toList := by
  have hdigits : ∀ n : ℕ, ' ' ∉ n.repr.toList := by
    intro n h
    rw [Nat.toList_repr] at h
    have hdigit := Nat.isDigit_of_mem_toDigits (by decide) (by decide) h
    exact absurd hdigit (by decide)
  rw [Int.toString_eq_repr, Int.repr_eq_if]
  by_cases hvalue : 0 ≤ value
  · rw [if_pos hvalue]
    exact hdigits _
  · rw [if_neg hvalue, String.toList_append, List.mem_append, not_or]
    exact ⟨by decide, hdigits _⟩

/-- Whatever the names contain, the count is behind the last space. -/
theorem countedText_line (key : Frames) (value : ℤ) :
    countedText (key.line value) = some (";".intercalate key.stackStrings, value) := by
  have hlist : (key.line value).toList
      = (";".intercalate key.stackStrings).toList ++ ' ' :: (toString value).toList := by
    rw [line_eq, String.toList_append, String.toList_append, List.append_assoc]
    rfl
  rw [countedText, hlist, rsplitOnce_append _ (space_notMem value)]
  simp only [Option.bind_eq_bind, Option.bind_some, String.ofList_toList, Int.toString_eq_repr,
    Int.toInt?_repr]

theorem readLine_line (key : Frames) (value : ℤ) :
    readLine (key.line value) = some
      ((([';'].intercalate (key.stackStrings.map String.toList)).splitOn ';').map String.ofList,
        value) := by
  rw [readLine, countedText_line]
  simp only [Option.bind_eq_bind, Option.bind_some, String.toList_intercalate]
  rfl

/-- A line is read as its stack exactly when no string of the stack contains
the separator. -/
theorem readLine_line_iff (key : Frames) (value : ℤ) :
    readLine (key.line value) = some (key.stackStrings, value) ↔
      ∀ s ∈ key.stackStrings, ';' ∉ s.toList := by
  -- the frames of the line, cut at each semicolon, are the names exactly if none has one
  have hlists : (key.stackStrings.map String.toList).map String.ofList = key.stackStrings := by
    simp
  have hne : key.stackStrings.map String.toList ≠ [] := by simp [stackStrings]
  have hinj : Function.Injective (List.map String.ofList) :=
    List.map_injective_iff.mpr fun _ _ h => String.ofList_injective h
  rw [readLine_line, Option.some_inj, Prod.mk.injEq, and_iff_left rfl]
  constructor
  · intro h s hs
    have hcut := hinj (h.trans hlists.symm)
    exact (splitOn_intercalate_iff hne).mp hcut _ (List.mem_map_of_mem hs)
  · intro h
    have hcut := (splitOn_intercalate_iff hne (c := ';')).mpr fun s hs => by
      obtain ⟨t, ht, rfl⟩ := List.mem_map.mp hs
      exact h t ht
    rw [hcut, hlists]

end Frames

namespace Report

/-- The lines determine the stacks: each is read as the stack and the count of
its entry, and entries with the same text have the same stack. -/
structure Readable (r : Report) : Prop where
  read : r.lines.map readLine = r.data.map fun entry => some (entry.1.stackStrings, entry.2)
  text : ∀ e ∈ r.data, ∀ e' ∈ r.data,
    (countedText (e.1.line e.2)).map Prod.fst = (countedText (e'.1.line e'.2)).map Prod.fst →
      e.1.threadNameOrId = e'.1.threadNameOrId ∧
        e.1.frames.flatten.map Symbol.demangledName = e'.1.frames.flatten.map Symbol.demangledName

theorem map_readLine_lines_iff (r : Report) :
    (r.lines.map readLine = r.data.map fun entry => some (entry.1.stackStrings, entry.2)) ↔
      ∀ entry ∈ r.data, ∀ s ∈ entry.1.stackStrings, ';' ∉ s.toList := by
  rw [lines, List.map_map, List.map_inj_left]
  simp only [Function.comp_apply, Frames.readLine_line_iff]

/-- **The lines determine the stacks exactly when no thread and no demangled
name contains a semicolon.** -/
theorem readable_iff (r : Report) :
    r.Readable ↔ ∀ entry ∈ r.data,
      ';' ∉ entry.1.threadNameOrId.toList ∧
        ∀ s ∈ entry.1.frames.flatten, ';' ∉ s.demangledName.toList := by
  have hstrings : ∀ key : Frames, (∀ s ∈ key.stackStrings, ';' ∉ s.toList) ↔
      ';' ∉ key.threadNameOrId.toList ∧
        ∀ s ∈ key.frames.flatten, ';' ∉ s.demangledName.toList := by
    intro key
    rw [Frames.stackStrings, List.forall_mem_cons, List.forall_mem_map]
    simp only [List.mem_reverse]
  simp only [← hstrings]
  constructor
  · intro h
    exact (map_readLine_lines_iff r).mp h.read
  · intro h
    refine ⟨(map_readLine_lines_iff r).mpr h, fun e he e' he' htext => ?_⟩
    -- equal texts are cut into equal strings
    rw [Frames.countedText_line, Frames.countedText_line, Option.map_some, Option.map_some,
      Option.some_inj] at htext
    have hread := (Frames.readLine_line_iff e.1 e.2).mpr (h e he)
    have hread' := (Frames.readLine_line_iff e'.1 e'.2).mpr (h e' he')
    rw [Frames.readLine_line, Option.some_inj, Prod.mk.injEq] at hread hread'
    have hlists : [';'].intercalate (e.1.stackStrings.map String.toList)
        = [';'].intercalate (e'.1.stackStrings.map String.toList) := by
      have hlist := congrArg String.toList htext
      rwa [String.toList_intercalate, String.toList_intercalate] at hlist
    rw [hlists, hread'.1] at hread
    obtain ⟨hthread, hnames⟩ := List.cons.inj hread.1
    rw [List.map_reverse, List.map_reverse] at hnames
    exact ⟨hthread.symm, (List.reverse_injective hnames).symm⟩

end Report

end Pprof

/-! ### A method of a trait for arrays -/

namespace Pprof.Given

/-- The mangled name of `f` in an implementation of `Trait` for `[T; N]`. -/
def mangled : String :=
  "_ZN48_$LT$$u5b$T$u3b$$u20$N$u5d$$u20$as$u20$Trait$GT$1f17h0123456789abcdefE"

/-- A demangler, on this name. -/
@[reducible] def demangler : Demangle :=
  ⟨fun s => if s = mangled then "<[T; N] as Trait>::f" else s⟩

/-- The symbol of an ASCII name. -/
def asciiSymbol (name : String) : Symbol :=
  ⟨some (name.toList.map fun c => UInt8.ofNat c.toNat), none, none, none⟩

/-- One thread in a stack of two functions of these names. -/
def twoNames (leaf root : String) : Report where
  data := [(⟨[[asciiSymbol leaf], [asciiSymbol root]], "main", 1, 0⟩, 3)]
  timing := ⟨99, 0, 0⟩
  distinct := List.pairwise_singleton _ _

end Pprof.Given

namespace Pprof.Report

open Given

local instance : Demangle := demangler

/-- The semicolon of the array type cuts the name in two. -/
theorem not_readable_array : ¬ (twoNames mangled "main").Readable := by
  intro h
  have hnames := (map_readLine_lines_iff _).mp h.read _ List.mem_cons_self
    "<[T; N] as Trait>::f" (by decide +kernel)
  exact absurd hnames (by decide)

end Pprof.Report
