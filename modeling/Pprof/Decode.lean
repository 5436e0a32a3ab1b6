/-
Reading a profile back.

A reader of a profile follows the ids: from a sample to its locations, from a
location through its lines to functions, and from all of these to the string
table.  `Profile.resolve` reads the thread, the names and the count of a sample,
`Profile.describe` what a location says about its symbol.

* `lines_of_mem` — the location of a symbol is that of the first symbol of the
  same demangled name;
* `stacks_of_pprof` — the samples are read back as the stacks of the report;
* `faithful_iff` — the locations say about each symbol what the report says
  exactly when symbols of one demangled name do not differ.
-/
import Pprof.Profile

open Interner

namespace Pprof

/-! ### The reader -/

namespace Protos.Profile

/-- The string an index refers to. -/
def string (p : Profile) (i : ℤ) : Option String :=
  if 0 ≤ i then p.stringTable[i.toNat]? else none

/-- The lines of the location `id`, each with its function. -/
def lines (p : Profile) (id : ℕ) : Option (List (Line × Function)) := do
  let location ← p.location.find? fun location => location.id == id
  location.line.mapM fun line =>
    (p.function.find? fun function => function.id == line.functionId).map fun function =>
      (line, function)

/-- The names of the functions at a location. -/
def names (p : Profile) (id : ℕ) : Option (List String) := do
  let lines ← p.lines id
  lines.mapM fun line => p.string line.2.name

/-- The line, the system name and the file name of each function at a
location. -/
def describe (p : Profile) (id : ℕ) : Option (List (ℤ × String × String)) := do
  let lines ← p.lines id
  lines.mapM fun line => do
    let systemName ← p.string line.2.systemName
    let filename ← p.string line.2.filename
    some (line.1.line, systemName, filename)

/-- The thread, the names and the count of a sample. -/
def resolve (p : Profile) (sample : Protos.Sample) : Option (String × List String × ℤ) := do
  let label ← sample.label.find? fun label => p.string label.key == some Protobuf.THREAD
  let thread ← p.string label.str
  let names ← sample.locationId.mapM p.names
  let count ← sample.value[0]?
  some (thread, names.flatten, count)

end Protos.Profile

theorem mapM_eq_some {α β : Type*} {f : α → Option β} {g : α → β} {l : List α}
    (h : ∀ a ∈ l, f a = some (g a)) : l.mapM f = some (l.map g) := by
  induction l with
  | nil => rfl
  | cons a l ih =>
    have hrest := ih fun b hb => h b (List.mem_cons_of_mem a hb)
    rw [List.mapM_cons, h a List.mem_cons_self, hrest]
    rfl

variable [Demangle]

/-- What a location should say about a symbol. -/
def Symbol.info (s : Symbol) : ℤ × String × String :=
  (s.lineNumber.toNat, s.sysName, s.fileName)

namespace Report

open Protobuf

variable {r : Report}

/-- What the reader should find for an entry. -/
def stack (entry : Frames × ℤ) : String × List String × ℤ :=
  (entry.1.threadNameOrId, entry.1.frames.flatten.map Symbol.demangledName, entry.2)

/-- The stacks of a report, in no order. -/
def allStacks (r : Report) : Multiset (String × List String × ℤ) := (r.data.map stack : List _)

/-- The profile says about each symbol of each stack what the report says. -/
def Faithful (r : Report) (p : Protos.Profile) : Prop :=
  (p.sample.map fun sample => sample.locationId.map p.describe)
    = r.data.map fun entry => entry.1.frames.flatten.map fun s => some [s.info]

instance (r : Report) (p : Protos.Profile) : Decidable (Faithful r p) :=
  inferInstanceAs (Decidable (_ = _))

/-- Symbols of one demangled name do not differ. -/
def Agrees (r : Report) : Prop :=
  ∀ s ∈ r.symbols, ∀ t ∈ r.symbols, s.demangledName = t.demangledName → s.info = t.info

theorem string_position (order : StringOrder r) {s : String} (h : s ∈ r.dedupStr) :
    (r.profile order).string (order.position s) = some s := by
  rw [Protos.Profile.string, if_pos (Int.natCast_nonneg _), Int.toNat_natCast]
  exact (order.lookup_strings h).2

/-- The location of a symbol is that of a symbol with the same name. -/
theorem lines_of_mem (order : StringOrder r) {s : Symbol} (hs : s ∈ r.symbols) :
    ∃ row ∈ r.symbols, row.demangledName = s.demangledName ∧
      (r.profile order).lines (index Symbol.demangledName r.rows s.demangledName + 1)
        = some [(⟨index Symbol.demangledName r.rows s.demangledName + 1, row.lineNumber.toNat⟩,
          functionRow order.position (index Symbol.demangledName r.rows s.demangledName) row)] := by
  have hkey : s.demangledName ∈ r.rows.map Symbol.demangledName :=
    (mem_keys_addAll _ _).mpr (.inr (List.mem_map_of_mem hs))
  obtain ⟨row, hrow, hname⟩ := exists_row hkey
  have hmem : row ∈ r.symbols :=
    (mem_of_mem_addAll (List.mem_of_getElem? hrow)).resolve_left List.not_mem_nil
  refine ⟨row, hmem, hname, ?_⟩
  -- the ids of locations and functions are their places in the tables, from one on
  have hlocation := find?_mapIdx locationRow Protos.Location.id (fun _ _ => rfl) r.rows
    (index Symbol.demangledName r.rows s.demangledName)
  have hfunction := find?_mapIdx (functionRow order.position) Protos.Function.id
    (fun _ _ => rfl) r.rows (index Symbol.demangledName r.rows s.demangledName)
  rw [hrow, Option.map_some] at hlocation hfunction
  rw [Protos.Profile.lines]
  simp only [profile, hlocation, Option.bind_eq_bind, Option.bind_some, locationRow,
    List.mapM_cons, List.mapM_nil, hfunction, Option.map_some]
  rfl

theorem names_of_mem (order : StringOrder r) {s : Symbol} (hs : s ∈ r.symbols) :
    (r.profile order).names (index Symbol.demangledName r.rows s.demangledName + 1)
      = some [s.demangledName] := by
  obtain ⟨row, hrow, hname, hlines⟩ := lines_of_mem order hs
  have hstring := string_position order (mem_dedupStr_symbol hs List.mem_cons_self)
  rw [Protos.Profile.names, hlines]
  simp only [Option.bind_eq_bind, Option.bind_some, List.mapM_cons, List.mapM_nil, functionRow,
    hstring, hname]
  rfl

/-- A location says about its symbol what is known of the first symbol of that
name. -/
theorem describe_of_mem (order : StringOrder r) {s : Symbol} (hs : s ∈ r.symbols) :
    ∃ row ∈ r.symbols, row.demangledName = s.demangledName ∧
      (r.profile order).describe (index Symbol.demangledName r.rows s.demangledName + 1)
        = some [row.info] := by
  obtain ⟨row, hrow, hname, hlines⟩ := lines_of_mem order hs
  refine ⟨row, hrow, hname, ?_⟩
  have hsys := string_position order (mem_dedupStr_symbol hrow (s := row.sysName) (by simp))
  have hfile := string_position order (mem_dedupStr_symbol hrow (s := row.fileName) (by simp))
  rw [Protos.Profile.describe, hlines]
  simp only [Option.bind_eq_bind, Option.bind_some, List.mapM_cons, List.mapM_nil, functionRow,
    hsys, hfile]
  rfl

/-- Every sample is read back as its stack. -/
theorem resolve_sampleOf (order : StringOrder r) {entry : Frames × ℤ} (he : entry ∈ r.data) :
    (r.profile order).resolve (sampleOf order.position r.timing.frequency r.rows entry)
      = some (stack entry) := by
  have hkey : (r.profile order).string (order.position THREAD) = some THREAD :=
    string_position order (List.mem_append_right _ (by simp))
  have hthread := string_position order (mem_dedupStr_thread he)
  have hnames : (entry.1.frames.flatten.map fun s =>
        index Symbol.demangledName r.rows s.demangledName + 1).mapM (r.profile order).names
      = some (entry.1.frames.flatten.map fun s => [s.demangledName]) := by
    rw [List.mapM_map]
    exact mapM_eq_some fun s hs => names_of_mem order (List.mem_flatMap.mpr ⟨entry, he, hs⟩)
  have hflatten : (entry.1.frames.flatten.map fun s => [s.demangledName]).flatten
      = entry.1.frames.flatten.map Symbol.demangledName := by
    rw [← List.flatMap_def, ← List.map_eq_flatMap]
  rw [Protos.Profile.resolve]
  simp only [sampleOf, List.find?_cons, hkey, beq_self_eq_true, Option.bind_eq_bind,
    Option.bind_some, hthread, hnames, hflatten, List.getElem?_cons_zero, stack]

/-- **The profile decodes to the stacks of the report**: thread, demangled names
and count of every entry, for every iteration order of the map and of the
strings. -/
theorem stacks_of_pprof (r q : Report) (hperm : q.data.Perm r.data) (order : StringOrder q)
    (hfrequency : 0 < q.timing.frequency) :
    ∃ p, q.pprof order = some p ∧
      ((p.sample.map p.resolve : List _) : Multiset _) = r.allStacks.map some := by
  refine ⟨q.profile order, pprof_eq order hfrequency, ?_⟩
  have hresolve : (q.profile order).sample.map (q.profile order).resolve
      = (q.data.map stack).map some := by
    show (q.data.map _).map _ = _
    rw [List.map_map, List.map_map]
    exact List.map_congr_left fun entry he => resolve_sampleOf order he
  rw [hresolve, allStacks, Multiset.map_coe]
  exact Multiset.coe_eq_coe.mpr ((hperm.map stack).map some)

/-- **The locations are faithful exactly when symbols of one demangled name do
not differ** in their lines, mangled names and files, for every iteration order
of the map and of the strings. -/
theorem faithful_iff (r q : Report) (hperm : q.data.Perm r.data) (order : StringOrder q)
    (hfrequency : 0 < q.timing.frequency) :
    ∃ p, q.pprof order = some p ∧ (q.Faithful p ↔ r.Agrees) := by
  refine ⟨q.profile order, pprof_eq order hfrequency, ?_⟩
  have hsymbols : ∀ s, s ∈ q.symbols ↔ s ∈ r.symbols := fun s => by
    rw [symbols, symbols, List.mem_flatMap, List.mem_flatMap]
    simp only [hperm.mem_iff]
  have hfaithful : q.Faithful (q.profile order) ↔ ∀ s ∈ q.symbols,
      (q.profile order).describe (index Symbol.demangledName q.rows s.demangledName + 1)
        = some [s.info] := by
    -- the locations of the samples are those of the symbols
    have hlocations : (q.profile order).sample.map
          (fun sample => sample.locationId.map (q.profile order).describe)
        = q.data.map fun entry => entry.1.frames.flatten.map fun s =>
          (q.profile order).describe
            (index Symbol.demangledName q.rows s.demangledName + 1) := by
      show (q.data.map _).map _ = _
      rw [List.map_map]
      refine List.map_congr_left fun entry _ => ?_
      exact List.map_map
    rw [Faithful, hlocations, List.map_inj_left]
    simp only [List.map_inj_left]
    constructor
    · intro h s hs
      obtain ⟨entry, he, hs⟩ := List.mem_flatMap.mp hs
      exact h entry he s hs
    · intro h entry he s hs
      exact h s (List.mem_flatMap.mpr ⟨entry, he, hs⟩)
  rw [hfaithful]
  constructor
  · -- symbols of one name have one location, which describes them all
    intro h s hs t ht hname
    have hinfo := h s ((hsymbols s).mpr hs)
    rw [hname, h t ((hsymbols t).mpr ht)] at hinfo
    exact (List.singleton_injective (Option.some.inj hinfo)).symm
  · intro hagrees s hs
    -- the location has what the first symbol of the name says
    obtain ⟨row, hrow, hname, hdescribe⟩ := describe_of_mem order hs
    rw [hdescribe, hagrees row ((hsymbols row).mp hrow) s ((hsymbols s).mp hs) hname]

end Report

end Pprof

/-! ### A function at one line, and at two -/

namespace Pprof.Given

/-- The function `f` at a line. -/
def symbolAt (lineno : UInt32) : Symbol := ⟨some [0x66], some 0x4028B0, some lineno, none⟩

/-- Two threads in `f`, at the lines `m` and `n`. -/
def twoThreads (m n : UInt32) : Report where
  data := [(⟨[[symbolAt m]], "main", 1, 0⟩, 3), (⟨[[symbolAt n]], "", 2, 0⟩, 4)]
  timing := ⟨99, 0, 0⟩
  distinct := by
    refine List.pairwise_pair.mpr ?_
    rw [← Bool.not_eq_true, Frames.beq_iff]
    simp [Frames.key]

/-- The same map in the other order. -/
def twoThreadsReversed (m n : UInt32) : Report where
  data := [(⟨[[symbolAt n]], "", 2, 0⟩, 4), (⟨[[symbolAt m]], "main", 1, 0⟩, 3)]
  timing := ⟨99, 0, 0⟩
  distinct := by
    refine List.pairwise_pair.mpr ?_
    rw [← Bool.not_eq_true, Frames.beq_iff]
    simp [Frames.key]

end Pprof.Given

namespace Pprof.Report

open Given

theorem stacks_of_pprof_reversed :
    ∃ p, (twoThreadsReversed 10 20).pprof (.last _) = some p ∧
      ((p.sample.map p.resolve : List _) : Multiset _)
        = ({("main", ["f"], 3), ("2", ["f"], 4)} : Multiset (String × List String × ℤ)).map some :=
  stacks_of_pprof (twoThreads 10 20) (twoThreadsReversed 10 20) (.swap _ _ []) (.last _) (by decide)

theorem faithful_iff_one_line :
    ∃ p, (twoThreadsReversed 10 10).pprof (.last _) = some p ∧
      (twoThreadsReversed 10 10).Faithful p := by
  obtain ⟨p, hp, hiff⟩ := faithful_iff (twoThreads 10 10) (twoThreadsReversed 10 10)
    (.swap _ _ []) (.last _) (by decide)
  refine ⟨p, hp, hiff.mpr ?_⟩
  intro s hs t ht _
  have hall : ∀ s ∈ (twoThreads 10 10).symbols, s = symbolAt 10 := by decide +kernel
  rw [hall s hs, hall t ht]

/-- Both samples point to the location of the line that comes first. -/
theorem not_faithful_two_lines :
    ∃ p, (twoThreads 10 20).pprof (.last _) = some p ∧ ¬ (twoThreads 10 20).Faithful p :=
  ⟨_, pprof_eq (.last _) (by decide), by decide +kernel⟩

end Pprof.Report
