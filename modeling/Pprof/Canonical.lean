/-
The string table as an interning of strings.

`dedup_str` holds every string once, but the empty string that the table starts
with is added outside of it.

* `divides_of_pprof` — `pprof` returns exactly where its divisions do;
* `canonical_iff` — the table has every string once exactly when no name of a
  symbol is empty.
-/
import Pprof.PerfMap
import Pprof.WellFormed

open Interner Wrapping

namespace Pprof

namespace Protos.Profile

/-- Every string is in the table once, so that references are equal when the
strings are, and the empty string is at `0`. -/
structure Canonical (p : Profile) : Prop where
  nodup : p.stringTable.Nodup
  references : ∀ i ∈ p.strings, ∀ j ∈ p.strings, ∃ s t, p.string i = some s ∧
    p.string j = some t ∧ (i = j ↔ s = t)
  empty : ∀ i ∈ p.strings, p.string i = some "" ↔ i = 0

theorem string_eq_some {p : Profile} {i : ℤ} {s : String} (h : p.string i = some s) :
    0 ≤ i ∧ p.stringTable[i.toNat]? = some s := by
  rw [string] at h
  split at h
  · exact ⟨‹_›, h⟩
  · cases h

/-- In a table without repetitions a string has one index. -/
theorem string_inj {p : Profile} (h : p.stringTable.Nodup) {i j : ℤ} {s : String}
    (hi : p.string i = some s) (hj : p.string j = some s) : i = j := by
  obtain ⟨hi₀, hi⟩ := string_eq_some hi
  obtain ⟨hj₀, hj⟩ := string_eq_some hj
  have hlt : i.toNat < p.stringTable.length := (List.getElem?_eq_some_iff.mp hi).1
  have heq : i.toNat = j.toNat := (List.getElem?_inj hlt h).mp (hi.trans hj.symm)
  omega

/-- A table without repetitions that starts with the empty string is
canonical. -/
theorem WellFormed.canonical {p : Profile} (h : p.WellFormed) (hnodup : p.stringTable.Nodup) :
    p.Canonical where
  nodup := hnodup
  references i hi j hj := by
    obtain ⟨s, hs⟩ := Option.isSome_iff_exists.mp (h.strings i hi)
    obtain ⟨t, ht⟩ := Option.isSome_iff_exists.mp (h.strings j hj)
    refine ⟨s, t, hs, ht, ?_, ?_⟩
    · rintro rfl
      exact Option.some.inj (hs.symm.trans ht)
    · rintro rfl
      exact string_inj hnodup hs ht
  empty i hi := by
    have hzero : p.string 0 = some "" := h.empty
    constructor
    · intro hs
      exact string_inj hnodup hs hzero
    · rintro rfl
      exact hzero

end Protos.Profile

namespace Protobuf

theorem i64Div_eq_some {x y z : ℤ} (h : i64Div x y = some z) :
    y ≠ 0 ∧ (x = -2 ^ 63 → y ≠ -1) := by
  rw [i64Div] at h
  split at h
  · cases h
  · rename_i hdiv
    push Not at hdiv
    exact hdiv

variable [Demangle]

/-- Where the samples are made, no division of a count panics. -/
theorem nanos_of_samples {strings : List (String × ℕ)} {frequency : ℤ}
    {data : List (Frames × ℤ)} {t : Tables} {made : List Protos.Sample × Tables}
    (h : samples strings frequency t data = some made) :
    ∀ entry ∈ data, wrap 64 (entry.2 * 1000000000) = -2 ^ 63 → frequency ≠ -1 := by
  induction data generalizing t made with
  | nil => exact fun entry hentry => absurd hentry List.not_mem_nil
  | cons first data ih =>
    simp only [samples, sample, Option.bind_eq_bind, Option.bind_eq_some_iff] at h
    obtain ⟨_, ⟨_, _, _, _, _, _, nanos, hnanos, _⟩, _, hrest, _⟩ := h
    intro entry hentry
    obtain rfl | hentry := List.mem_cons.mp hentry
    · exact (i64Div_eq_some hnanos).2
    · exact ih hrest entry hentry

end Protobuf

variable [Demangle]

namespace Report

open Protobuf

variable {r : Report}

theorem divides_of_pprof {order : StringOrder r} {p : Protos.Profile}
    (h : r.pprof order = some p) : r.Divides := by
  simp only [pprof, Option.bind_eq_bind, Option.bind_eq_some_iff] at h
  obtain ⟨_, hsamples, _, _, _, _, _, hperiod, _⟩ := h
  exact ⟨(i64Div_eq_some hperiod).1, nanos_of_samples hsamples⟩

/-- `pprof` returns exactly where its divisions do. -/
theorem isSome_pprof_iff (order : StringOrder r) : (r.pprof order).isSome ↔ r.Divides := by
  constructor
  · intro h
    obtain ⟨p, hp⟩ := Option.isSome_iff_exists.mp h
    exact divides_of_pprof hp
  · intro h
    rw [pprof_eq_of_divides order h]
    rfl

/-- No symbol has an empty name, system name or file name. -/
def Named (r : Report) : Prop :=
  ∀ s ∈ r.symbols, s.demangledName ≠ "" ∧ s.sysName ≠ "" ∧ s.fileName ≠ ""

instance (r : Report) : Decidable r.Named :=
  inferInstanceAs (Decidable (∀ s ∈ r.symbols, _ ∧ _))

omit [Demangle] in
/-- A thread without a name is named by its id. -/
theorem threadNameOrId_ne_empty (f : Frames) : f.threadNameOrId ≠ "" := by
  rw [Frames.threadNameOrId]
  split
  · assumption
  · intro h
    have hdigits := congrArg String.toList h
    rw [show toString f.threadId.toNat = Nat.repr f.threadId.toNat from rfl, Nat.repr,
      String.toList_ofList] at hdigits
    exact absurd hdigits (Nat.toDigits_ne_nil)

/-- The set of strings has the empty string only from the names of symbols. -/
theorem empty_mem_dedupStr_iff (r : Report) : "" ∈ r.dedupStr ↔ ¬ r.Named := by
  constructor
  · intro h hnamed
    obtain h | h := List.mem_append.mp h
    · obtain ⟨entry, hentry, h⟩ := List.mem_flatMap.mp h
      obtain h | h := List.mem_cons.mp h
      · exact threadNameOrId_ne_empty _ h.symm
      · obtain ⟨s, hs, h⟩ := List.mem_flatMap.mp h
        obtain ⟨hname, hsys, hfile⟩ := hnamed s (List.mem_flatMap.mpr ⟨entry, hentry, hs⟩)
        simp [hname.symm, hsys.symm, hfile.symm] at h
    · revert h
      decide
  · intro h
    rw [Named] at h
    push Not at h
    -- the symbol that breaks the condition has an empty name, system name or file name
    obtain ⟨s, hs, hnamed⟩ := h
    apply mem_dedupStr_symbol hs
    by_cases hname : s.demangledName = ""
    · simp [hname]
    · by_cases hsys : s.sysName = ""
      · simp [hsys]
      · simp [hnamed hname hsys]

theorem StringOrder.nodup_strTbl_iff (order : StringOrder r) : order.strTbl.Nodup ↔ r.Named := by
  rw [StringOrder.strTbl, List.nodup_cons, order.mem_iff, empty_mem_dedupStr_iff, not_not]
  exact and_iff_left order.nodup

/-- **When string interning is canonical**: `pprof` returns where its divisions
do, and its string table has every string once exactly when no name of a symbol
is empty. -/
theorem canonical_iff (r : Report) (order : StringOrder r) :
    ((r.pprof order).isSome ↔ r.Divides) ∧
    ∀ p, r.pprof order = some p → (p.Canonical ↔ r.Named) := by
  refine ⟨isSome_pprof_iff order, fun p hp => ?_⟩
  rw [pprof_eq_of_divides order (divides_of_pprof hp)] at hp
  obtain rfl := Option.some.inj hp
  constructor
  · intro h
    exact order.nodup_strTbl_iff.mp h.nodup
  · intro h
    exact (wellFormed_profile order).canonical (order.nodup_strTbl_iff.mpr h)

end Report

end Pprof

/-! ### A record without a name -/

namespace Pprof.Given

/-- The main thread in code that the perf map has without a name. -/
def nameless : Report where
  data := [(⟨[[PerfMap.symbol ""]], "main", 1, 0⟩, 3)]
  timing := ⟨99, 0, 0⟩
  distinct := List.pairwise_singleton _ _

end Pprof.Given

namespace Pprof.Report

open Given

/-- The record `10 8` names its symbol with the empty string, which then is in
the table a second time. -/
theorem not_canonical_nameless :
    (PerfMap.new [0x31, 0x30, 0x20, 0x38, 0x0A]).map (fun m => resolveInPerfmap (some m) 0x14)
      = some (some (PerfMap.symbol "")) ∧
    ∃ p, nameless.pprof (.last _) = some p ∧ p.stringTable.count "" = 2 ∧
      (∃ i ∈ p.strings, p.string i = some "" ∧ i ≠ 0) ∧ ¬ p.Canonical := by
  refine ⟨by decide +kernel, _, pprof_eq (.last _) (by decide), by decide +kernel, ?_, ?_⟩
  · exact ⟨2, by decide +kernel, by decide +kernel, by decide⟩
  · intro h
    exact absurd h.nodup (by decide +kernel)

end Pprof.Report
