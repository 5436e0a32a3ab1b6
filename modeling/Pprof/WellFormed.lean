/-
Well-formed profiles.

`Protos.Profile.WellFormed` is what `profile.proto` asks of a profile: the
string table starts with the empty string and contains what the profile refers
to, locations and functions have numbers of their own, every reference has one
target, and nothing is in a table that no sample reaches.

* `wellFormed_profile` — the closed form of `pprof` has these properties, which
  are those of a table interned by name;
* `wellFormed_of_pprof` — so `pprof` returns a well-formed profile for every
  frequency but zero, as long as no product overflows.
-/
import Pprof.Decode

open Interner Wrapping

namespace Pprof

namespace Protos

def ValueType.strings (v : ValueType) : List ℤ := [v.ty, v.unit]

def Label.strings (l : Label) : List ℤ := [l.key, l.str, l.numUnit]

def Function.strings (f : Function) : List ℤ := [f.name, f.systemName, f.filename]

namespace Profile

/-- All indices of strings in a profile. -/
def strings (p : Profile) : List ℤ :=
  p.sampleType.flatMap ValueType.strings ++ p.periodType.toList.flatMap ValueType.strings ++
  (p.sample.flatMap fun sample => sample.label.flatMap Label.strings) ++
  p.function.flatMap Function.strings ++
  [p.dropFrames, p.keepFrames, p.defaultSampleType] ++ p.comment

/-- The conventions of `profile.proto`. -/
structure WellFormed (p : Profile) : Prop where
  empty : p.stringTable[0]? = some ""
  strings : ∀ i ∈ p.strings, (p.string i).isSome
  functionIds : (p.function.map Function.id).Nodup
  functionId_ne_zero : ∀ f ∈ p.function, f.id ≠ 0
  locationIds : (p.location.map Location.id).Nodup
  locationId_ne_zero : ∀ l ∈ p.location, l.id ≠ 0
  /-- Every location of a sample is in the table, once. -/
  locations : ∀ s ∈ p.sample, ∀ id ∈ s.locationId, p.location.countP (·.id == id) = 1
  /-- Every function of a line is in the table, once. -/
  functions : ∀ l ∈ p.location, ∀ line ∈ l.line, p.function.countP (·.id == line.functionId) = 1
  locationReached : ∀ l ∈ p.location, ∃ s ∈ p.sample, l.id ∈ s.locationId
  functionReached : ∀ f ∈ p.function, ∃ s ∈ p.sample, ∃ id ∈ s.locationId,
    ∃ l ∈ p.location, l.id = id ∧ ∃ line ∈ l.line, line.functionId = f.id
  values : ∀ s ∈ p.sample, s.value.length = p.sampleType.length

end Profile

end Protos

variable [Demangle]

namespace Report

open Protobuf

variable {r : Report}

/-- No product of a count overflows. -/
def CountsFit (r : Report) : Prop := ∀ entry ∈ r.data, InRange 64 (entry.2 * 1000000000)

instance (r : Report) : Decidable r.CountsFit :=
  inferInstanceAs (Decidable (∀ entry ∈ r.data, InRange 64 (entry.2 * 1000000000)))

theorem nodup_rows (r : Report) : (r.rows.map Symbol.demangledName).Nodup :=
  nodup_keys_addAll r.symbols List.nodup_nil

theorem mem_symbols_of_rows {s : Symbol} (h : s ∈ r.rows) : s ∈ r.symbols :=
  (mem_of_mem_addAll h).resolve_left List.not_mem_nil

theorem mem_rows_key {s : Symbol} (h : s ∈ r.symbols) :
    s.demangledName ∈ r.rows.map Symbol.demangledName :=
  (mem_keys_addAll _ _).mpr (.inr (List.mem_map_of_mem h))

theorem isSome_string (order : StringOrder r) {s : String} (h : s ∈ r.dedupStr) :
    ((r.profile order).string (order.position s)).isSome := by
  rw [string_position order h]
  rfl

/-- The indices that are left at zero refer to the empty string. -/
theorem isSome_string_zero (order : StringOrder r) : ((r.profile order).string 0).isSome := rfl

theorem isSome_strings (order : StringOrder r) {i : ℤ} (h : i ∈ (r.profile order).strings) :
    ((r.profile order).string i).isSome := by
  have hconst : ∀ s ∈ [SAMPLES, COUNT, CPU, NANOSECONDS, THREAD],
      ((r.profile order).string (order.position s)).isSome :=
    fun s hs => isSome_string order (List.mem_append_right _ hs)
  simp only [Protos.Profile.strings, List.mem_append] at h
  -- of the sample types, the period type, the samples, the functions, the fields left at 0
  obtain ((((h | h) | h) | h) | h) | h := h
  · have hi : i ∈ [(order.position SAMPLES : ℤ), order.position COUNT, order.position CPU,
        order.position NANOSECONDS] := h
    simp only [List.mem_cons, List.not_mem_nil, or_false] at hi
    obtain rfl | rfl | rfl | rfl := hi <;> exact hconst _ (by simp)
  · have hi : i ∈ [(order.position CPU : ℤ), order.position NANOSECONDS] := h
    simp only [List.mem_cons, List.not_mem_nil, or_false] at hi
    obtain rfl | rfl := hi <;> exact hconst _ (by simp)
  · obtain ⟨sample, hsample, hi⟩ := List.mem_flatMap.mp h
    obtain ⟨entry, he, rfl⟩ := List.mem_map.mp hsample
    have hi : i ∈ [(order.position THREAD : ℤ), order.position entry.1.threadNameOrId, 0] := hi
    simp only [List.mem_cons, List.not_mem_nil, or_false] at hi
    obtain rfl | rfl | rfl := hi
    · exact hconst _ (by simp)
    · exact isSome_string order (mem_dedupStr_thread he)
    · exact isSome_string_zero order
  · obtain ⟨function, hfunction, hi⟩ := List.mem_flatMap.mp h
    obtain ⟨j, hj, rfl⟩ := List.mem_mapIdx.mp hfunction
    have hs := mem_symbols_of_rows (List.getElem_mem hj)
    simp only [Protos.Function.strings, functionRow, List.mem_cons, List.not_mem_nil,
      or_false] at hi
    obtain rfl | rfl | rfl := hi <;> exact isSome_string order (mem_dedupStr_symbol hs (by simp))
  · have hi : i ∈ [(0 : ℤ), 0, 0] := h
    obtain rfl : i = 0 := by simpa using hi
    exact isSome_string_zero order
  · exact absurd h List.not_mem_nil

/-- A row is reached from a sample whose stack names it. -/
theorem reached_of_rows (order : StringOrder r) {j : ℕ} (hj : j < r.rows.length) :
    ∃ s ∈ (r.profile order).sample, j + 1 ∈ s.locationId := by
  obtain ⟨entry, he, hs⟩ := List.mem_flatMap.mp (mem_symbols_of_rows (List.getElem_mem hj))
  refine ⟨_, List.mem_map_of_mem he, List.mem_map.mpr ⟨_, hs, ?_⟩⟩
  rw [index_getElem r.nodup_rows hj]

/-- The ids of both tables are `1`, `2`, .. . -/
theorem functionIds_eq (order : StringOrder r) :
    (r.profile order).function.map Protos.Function.id = List.range' 1 r.rows.length :=
  numbers_mapIdx _ _ (fun _ _ => rfl) _

theorem locationIds_eq (order : StringOrder r) :
    (r.profile order).location.map Protos.Location.id = List.range' 1 r.rows.length :=
  numbers_mapIdx _ _ (fun _ _ => rfl) _

/-- **The profile is well formed.** -/
theorem wellFormed_profile (order : StringOrder r) : (r.profile order).WellFormed where
  empty := rfl
  strings _ := isSome_strings order
  functionIds := by
    rw [functionIds_eq]
    exact List.nodup_range' 1
  functionId_ne_zero f hf := by
    obtain ⟨j, _, rfl⟩ := List.mem_mapIdx.mp hf
    exact Nat.succ_ne_zero j
  locationIds := by
    rw [locationIds_eq]
    exact List.nodup_range' 1
  locationId_ne_zero l hl := by
    obtain ⟨j, _, rfl⟩ := List.mem_mapIdx.mp hl
    exact Nat.succ_ne_zero j
  locations s hs id hid := by
    obtain ⟨entry, he, rfl⟩ := List.mem_map.mp hs
    obtain ⟨symbol, hsymbol, rfl⟩ := List.mem_map.mp hid
    have hmem : symbol ∈ r.symbols := List.mem_flatMap.mpr ⟨entry, he, hsymbol⟩
    exact countP_number (locationIds_eq order) (index_lt (mem_rows_key hmem))
  functions l hl line hline := by
    obtain ⟨j, hj, rfl⟩ := List.mem_mapIdx.mp hl
    obtain rfl := List.mem_singleton.mp hline
    exact countP_number (functionIds_eq order) hj
  locationReached l hl := by
    obtain ⟨j, hj, rfl⟩ := List.mem_mapIdx.mp hl
    exact reached_of_rows order hj
  functionReached f hf := by
    obtain ⟨j, hj, rfl⟩ := List.mem_mapIdx.mp hf
    obtain ⟨s, hs, hid⟩ := reached_of_rows order hj
    -- the location of the same number has one line, in this function
    exact ⟨s, hs, j + 1, hid, _, List.mem_mapIdx.mpr ⟨j, hj, rfl⟩, rfl, _,
      List.mem_singleton_self _, rfl⟩
  values s hs := by
    obtain ⟨entry, _, rfl⟩ := List.mem_map.mp hs
    rfl

/-- **Every emitted profile is well formed**, for every order of the entries and
of the strings. -/
theorem wellFormed_of_pprof (r : Report) (order : StringOrder r)
    (hfrequency : r.timing.frequency ≠ 0) (hcounts : r.CountsFit) :
    ∃ p, r.pprof order = some p ∧ p.WellFormed :=
  ⟨_, pprof_eq_of_divides order (divides_of_inRange hfrequency hcounts), wellFormed_profile order⟩

end Report

end Pprof

namespace Pprof.Report

open Given

theorem wellFormed_of_pprof_two_lines :
    ∃ p, (twoThreads 10 20).pprof (.last _) = some p ∧ p.WellFormed :=
  wellFormed_of_pprof (twoThreads 10 20) (.last _) (by decide) (by decide)

end Pprof.Report
