/-
The pprof profile of a report.

The messages follow `profile.proto`, and `Report.pprof` follows `report.rs`: the
strings of the report are put in a table in the order in which the set of them
is iterated (`StringOrder`), and a second table numbers functions and locations
by the demangled name of the symbol, in the order in which the stacks name
them.  Both tables are filled while samples refer to them.

* `location_represents`, `samples_represents` — what the loops do to the tables,
  for one symbol and for all samples: they are a table interned by name;
* `pprof_eq` — the finished profile in closed form, for every order of the
  strings; no `unwrap` fails.
-/
import Pprof.Interner
import Pprof.Report

open Interner Weight Wrapping

namespace Pprof

/-! ### The messages -/

namespace Protos

structure ValueType where
  ty : ℤ
  unit : ℤ
  deriving DecidableEq

structure Label where
  key : ℤ
  str : ℤ
  num : ℤ := 0
  numUnit : ℤ := 0
  deriving DecidableEq

structure Sample where
  locationId : List ℕ
  value : List ℤ
  label : List Label
  deriving DecidableEq

structure Line where
  functionId : ℕ
  line : ℤ
  deriving DecidableEq

structure Location where
  id : ℕ
  mappingId : ℕ := 0
  address : ℕ := 0
  line : List Line
  isFolded : Bool := false
  deriving DecidableEq

structure Function where
  id : ℕ
  name : ℤ
  systemName : ℤ
  filename : ℤ
  startLine : ℤ := 0
  deriving DecidableEq

structure Profile where
  sampleType : List ValueType
  sample : List Sample
  location : List Location
  function : List Function
  stringTable : List String
  dropFrames : ℤ := 0
  keepFrames : ℤ := 0
  timeNanos : ℤ
  durationNanos : ℤ
  periodType : Option ValueType
  period : ℤ
  comment : List ℤ := []
  defaultSampleType : ℤ := 0
  deriving DecidableEq

end Protos

/-! ### `Report::pprof` -/

namespace Protobuf

def SAMPLES : String := "samples"
def COUNT : String := "count"
def CPU : String := "cpu"
def NANOSECONDS : String := "nanoseconds"
def THREAD : String := "thread"

/-- The division of `i64`; `none` where it panics. -/
def i64Div (x y : ℤ) : Option ℤ :=
  if y = 0 ∨ (x = -2 ^ 63 ∧ y = -1) then none else some (x.tdiv y)

/-- Only a zero divisor and the one quotient that is out of range panic. -/
theorem i64Div_eq {x y : ℤ} (hy : y ≠ 0) (hx : x = -2 ^ 63 → y ≠ -1) :
    i64Div x y = some (x.tdiv y) := by
  rw [i64Div, if_neg]
  rintro (hzero | ⟨hmin, hone⟩)
  · exact hy hzero
  · exact hx hmin hone

/-- `strings`: where each string of the table is, the last time it occurs. -/
def strings (strTbl : List String) : List (String × ℕ) := strTbl.zipIdx.reverse

/-- A string of the table is found, at a position where it is. -/
theorem lookup_strings {strTbl : List String} {s : String} (h : s ∈ strTbl) :
    ∃ i, (strings strTbl).lookup s = some i ∧ strTbl[i]? = some s := by
  cases hlookup : (strings strTbl).lookup s with
  | none =>
    obtain ⟨i, hi⟩ := List.mem_iff_getElem?.mp h
    have hmem : (s, i) ∈ strings strTbl :=
      List.mem_reverse.mpr (List.mem_zipIdx_iff_getElem?.mpr hi)
    have hne := List.lookup_eq_none_iff.mp hlookup _ hmem
    simp at hne
  | some i =>
    obtain ⟨l₁, l₂, hsplit, _⟩ := List.lookup_eq_some_iff.mp hlookup
    have hmem : (s, i) ∈ strings strTbl := by
      rw [hsplit]
      exact List.mem_append_right _ List.mem_cons_self
    exact ⟨i, rfl, List.mem_zipIdx_iff_getElem?.mp (List.mem_reverse.mp hmem)⟩

/-- `functions`, `fn_tbl` and `loc_tbl` while they are being filled. -/
structure Tables where
  functions : List (String × ℕ)
  fnTbl : List Protos.Function
  locTbl : List Protos.Location

variable [Demangle]

/-- One turn of the inner loop: what is pushed to `locs`, and the tables. -/
def location (strings : List (String × ℕ)) (t : Tables) (symbol : Symbol) :
    Option (ℕ × Tables) :=
  match t.functions.lookup symbol.demangledName with
  -- the name is known: this symbol's line and files are not looked at
  | some locIdx => some (locIdx, t)
  | none => do
    let functionId := t.fnTbl.length + 1
    let name ← strings.lookup symbol.demangledName
    let systemName ← strings.lookup symbol.sysName
    let filename ← strings.lookup symbol.fileName
    let line : Protos.Line := ⟨functionId, symbol.lineNumber.toNat⟩
    some (functionId,
      { functions := (symbol.demangledName, functionId) :: t.functions
        fnTbl := t.fnTbl ++ [{ id := functionId, name, systemName, filename }]
        locTbl := t.locTbl ++ [{ id := functionId, line := [line] }] })

def locations (strings : List (String × ℕ)) : Tables → List Symbol → Option (List ℕ × Tables)
  | t, [] => some ([], t)
  | t, symbol :: symbols => do
    let (id, t) ← location strings t symbol
    let (locs, t) ← locations strings t symbols
    some (id :: locs, t)

/-- One turn of the outer loop. -/
def sample (strings : List (String × ℕ)) (frequency : ℤ) (t : Tables) (entry : Frames × ℤ) :
    Option (Protos.Sample × Tables) := do
  let (locs, t) ← locations strings t entry.1.frames.flatten
  let key ← strings.lookup THREAD
  let str ← strings.lookup entry.1.threadNameOrId
  let nanos ← i64Div (wrap 64 (entry.2 * 1000000000)) frequency
  some ({ locationId := locs, value := [entry.2, nanos], label := [{ key, str }] }, t)

def samples (strings : List (String × ℕ)) (frequency : ℤ) :
    Tables → List (Frames × ℤ) → Option (List Protos.Sample × Tables)
  | t, [] => some ([], t)
  | t, entry :: entries => do
    let (first, t) ← sample strings frequency t entry
    let (rest, t) ← samples strings frequency t entries
    some (first :: rest, t)

def valueType (strings : List (String × ℕ)) (ty unit : String) : Option Protos.ValueType := do
  let ty ← strings.lookup ty
  let unit ← strings.lookup unit
  some { ty, unit }

/-! ### The tables in closed form -/

/-- The row of a symbol in `fn_tbl`, at position `i`. -/
def functionRow (str : String → ℕ) (i : ℕ) (symbol : Symbol) : Protos.Function :=
  { id := i + 1, name := str symbol.demangledName, systemName := str symbol.sysName,
    filename := str symbol.fileName }

omit [Demangle] in
/-- Its row in `loc_tbl`. -/
def locationRow (i : ℕ) (symbol : Symbol) : Protos.Location :=
  { id := i + 1, line := [⟨i + 1, symbol.lineNumber.toNat⟩] }

/-- The tables hold one row for each symbol of `rows`. -/
structure Represents (str : String → ℕ) (t : Tables) (rows : List Symbol) : Prop where
  functions : ∀ name, t.functions.lookup name =
    if name ∈ rows.map Symbol.demangledName then some (index Symbol.demangledName rows name + 1)
    else none
  fnTbl : t.fnTbl = rows.mapIdx (functionRow str)
  locTbl : t.locTbl = rows.mapIdx locationRow

theorem represents_nil (str : String → ℕ) : Represents str ⟨[], [], []⟩ [] :=
  ⟨fun _ => rfl, rfl, rfl⟩

/-- The string table finds the strings of the symbol. -/
structure Finds (strings : List (String × ℕ)) (str : String → ℕ) (symbol : Symbol) : Prop where
  name : strings.lookup symbol.demangledName = some (str symbol.demangledName)
  systemName : strings.lookup symbol.sysName = some (str symbol.sysName)
  filename : strings.lookup symbol.fileName = some (str symbol.fileName)

variable {strings : List (String × ℕ)} {str : String → ℕ}

/-- The inner loop interns the symbol by its demangled name. -/
theorem location_represents {t : Tables} {rows : List Symbol} (ht : Represents str t rows)
    {symbol : Symbol} (hfinds : Finds strings str symbol) :
    ∃ t', location strings t symbol = some
        (index Symbol.demangledName (add Symbol.demangledName rows symbol) symbol.demangledName + 1,
          t') ∧
      Represents str t' (add Symbol.demangledName rows symbol) := by
  by_cases hmem : symbol.demangledName ∈ rows.map Symbol.demangledName
  · refine ⟨t, ?_, ?_⟩
    · rw [location, ht.functions, if_pos hmem, add_of_mem hmem]
    · rw [add_of_mem hmem]
      exact ht
  · have hlen : t.fnTbl.length = rows.length := by rw [ht.fnTbl, List.length_mapIdx]
    have hself := index_add_self symbol hmem
    refine ⟨⟨(symbol.demangledName, t.fnTbl.length + 1) :: t.functions,
      t.fnTbl ++ [functionRow str t.fnTbl.length symbol],
      t.locTbl ++ [locationRow t.fnTbl.length symbol]⟩, ?_, ?_⟩
    · rw [location, ht.functions, if_neg hmem, hself, ← hlen]
      simp only [hfinds.name, hfinds.systemName, hfinds.filename, Option.bind_eq_bind,
        Option.bind_some]
      rfl
    · refine ⟨fun name => ?_, ?_, ?_⟩
      · simp only [List.lookup_cons, mem_keys_add]
        by_cases hname : name = symbol.demangledName
        · subst hname
          simp [hself, hlen]
        · by_cases hold : name ∈ rows.map Symbol.demangledName
          · -- the older names keep their positions
            have hindex := index_stable (prefix_add Symbol.demangledName rows symbol) hold
            rw [hindex, ht.functions, if_pos hold, if_pos (.inl hold), beq_false_of_ne hname]
          · rw [ht.functions, if_neg hold, if_neg (by simp [hold, hname]), beq_false_of_ne hname]
      · rw [add_of_not_mem hmem, List.mapIdx_concat, ← ht.fnTbl, ← hlen]
      · rw [add_of_not_mem hmem, List.mapIdx_concat, ← ht.locTbl, ← hlen]

theorem locations_represents {symbols : List Symbol} (hfinds : ∀ s ∈ symbols, Finds strings str s)
    {t : Tables} {rows : List Symbol} (ht : Represents str t rows) :
    ∃ t', locations strings t symbols = some
        (symbols.map fun s => index Symbol.demangledName
          (addAll Symbol.demangledName rows symbols) s.demangledName + 1, t') ∧
      Represents str t' (addAll Symbol.demangledName rows symbols) := by
  induction symbols generalizing t rows with
  | nil => exact ⟨t, rfl, ht⟩
  | cons symbol symbols ih =>
    obtain ⟨t₁, hlocation, ht₁⟩ := location_represents ht (hfinds symbol List.mem_cons_self)
    obtain ⟨t₂, hlocations, ht₂⟩ := ih (fun s hs => hfinds s (List.mem_cons_of_mem _ hs)) ht₁
    refine ⟨t₂, ?_, ht₂⟩
    -- the position of the first symbol is the one it has in the finished table
    have hkey : symbol.demangledName ∈
        (add Symbol.demangledName rows symbol).map Symbol.demangledName :=
      (mem_keys_add symbol _).mpr (.inr rfl)
    have hstable := index_stable (prefix_addAll Symbol.demangledName _ symbols) hkey
    rw [locations, hlocation]
    simp only [Option.bind_eq_bind, Option.bind_some, hlocations, addAll_cons, List.map_cons,
      hstable]

/-- The sample of a stack, once the table of rows is finished. -/
def sampleOf (str : String → ℕ) (frequency : ℤ) (rows : List Symbol) (entry : Frames × ℤ) :
    Protos.Sample :=
  { locationId := entry.1.frames.flatten.map fun s =>
      index Symbol.demangledName rows s.demangledName + 1
    value := [entry.2, (wrap 64 (entry.2 * 1000000000)).tdiv frequency]
    label := [{ key := str THREAD, str := str entry.1.threadNameOrId }] }

/-- The outer loop interns the symbols of all stacks. -/
theorem samples_represents (hthread : strings.lookup THREAD = some (str THREAD)) {frequency : ℤ}
    (hfrequency : frequency ≠ 0) {data : List (Frames × ℤ)}
    (hdata : ∀ entry ∈ data,
      (wrap 64 (entry.2 * 1000000000) = -2 ^ 63 → frequency ≠ -1) ∧
      strings.lookup entry.1.threadNameOrId = some (str entry.1.threadNameOrId) ∧
      ∀ s ∈ entry.1.frames.flatten, Finds strings str s)
    {t : Tables} {rows : List Symbol} (ht : Represents str t rows) :
    ∃ t', samples strings frequency t data = some
        (data.map (sampleOf str frequency (addAll Symbol.demangledName rows
          (data.flatMap fun entry => entry.1.frames.flatten))), t') ∧
      Represents str t' (addAll Symbol.demangledName rows
        (data.flatMap fun entry => entry.1.frames.flatten)) := by
  induction data generalizing t rows with
  | nil => exact ⟨t, rfl, ht⟩
  | cons entry data ih =>
    obtain ⟨hnanos, hstr, hfinds⟩ := hdata entry List.mem_cons_self
    obtain ⟨t₁, hlocations, ht₁⟩ := locations_represents hfinds ht
    obtain ⟨t₂, hsamples, ht₂⟩ := ih (fun e he => hdata e (List.mem_cons_of_mem _ he)) ht₁
    rw [List.flatMap_cons, addAll_append]
    refine ⟨t₂, ?_, ht₂⟩
    -- the ids given to a sample stay those of its names in the tables that later samples extend
    have hids : ∀ s ∈ entry.1.frames.flatten,
        index Symbol.demangledName (addAll Symbol.demangledName rows entry.1.frames.flatten)
            s.demangledName
          = index Symbol.demangledName (addAll Symbol.demangledName
              (addAll Symbol.demangledName rows entry.1.frames.flatten)
              (data.flatMap fun entry => entry.1.frames.flatten)) s.demangledName := by
      intro s hs
      have hkey : s.demangledName ∈ (addAll Symbol.demangledName rows
          entry.1.frames.flatten).map Symbol.demangledName :=
        (mem_keys_addAll _ _).mpr (.inr (List.mem_map_of_mem hs))
      exact (index_stable (prefix_addAll Symbol.demangledName _ _) hkey).symm
    rw [samples, sample, hlocations]
    simp only [Option.bind_eq_bind, Option.bind_some, hthread, hstr, hsamples,
      i64Div_eq hfrequency hnanos, List.map_cons, sampleOf]
    congr 4
    exact List.map_congr_left fun s hs => by rw [hids s hs]

end Protobuf

namespace Report

open Protobuf

variable [Demangle]

/-- The symbols of all stacks, in the order of the loops. -/
def symbols (r : Report) : List Symbol := r.data.flatMap fun entry => entry.1.frames.flatten

/-- What is inserted into `dedup_str`. -/
def dedupStr (r : Report) : List String :=
  (r.data.flatMap fun entry => entry.1.threadNameOrId ::
    entry.1.frames.flatten.flatMap fun symbol =>
      [symbol.demangledName, symbol.sysName, symbol.fileName]) ++
  [SAMPLES, COUNT, CPU, NANOSECONDS, THREAD]

/-- An order in which the set `dedup_str` is iterated. -/
structure StringOrder (r : Report) where
  strs : List String
  nodup : strs.Nodup
  mem_iff : ∀ s, s ∈ strs ↔ s ∈ r.dedupStr

/-- The order of the last insertions. -/
def StringOrder.last (r : Report) : StringOrder r :=
  ⟨r.dedupStr.dedup, r.dedupStr.nodup_dedup, fun _ => List.mem_dedup⟩

/-- The string table. -/
def StringOrder.strTbl {r : Report} (order : StringOrder r) : List String := "" :: order.strs

/-- `Report::pprof`, with the order in which its set of strings is iterated; the
order of its map is that of `data`.  `none` where it panics. -/
def pprof (r : Report) (order : StringOrder r) : Option Protos.Profile := do
  let strings := strings order.strTbl
  let (sample, t) ← samples strings r.timing.frequency ⟨[], [], []⟩ r.data
  let samplesValue ← valueType strings SAMPLES COUNT
  let timeValue ← valueType strings CPU NANOSECONDS
  let period ← i64Div 1000000000 r.timing.frequency
  some
    { sampleType := [samplesValue, timeValue]
      sample
      stringTable := order.strTbl
      function := t.fnTbl
      location := t.locTbl
      timeNanos := wrap 64 (max 0 r.timing.startTime)
      durationNanos := wrap 64 r.timing.duration
      periodType := some timeValue
      period }

/-! ### The profile in closed form -/

/-- The symbols that have a row, in the order of the rows. -/
def rows (r : Report) : List Symbol := addAll Symbol.demangledName [] r.symbols

variable {r : Report}

/-- Where a string is in the string table. -/
def StringOrder.position (order : StringOrder r) (s : String) : ℕ :=
  ((strings order.strTbl).lookup s).getD 0

theorem StringOrder.mem_strTbl (order : StringOrder r) {s : String} (h : s ∈ r.dedupStr) :
    s ∈ order.strTbl := List.mem_cons_of_mem _ ((order.mem_iff s).mpr h)

theorem StringOrder.lookup_strings (order : StringOrder r) {s : String} (h : s ∈ r.dedupStr) :
    (strings order.strTbl).lookup s = some (order.position s) ∧
      order.strTbl[order.position s]? = some s := by
  obtain ⟨i, hlookup, hi⟩ := Protobuf.lookup_strings (order.mem_strTbl h)
  rw [StringOrder.position, hlookup]
  exact ⟨rfl, hi⟩

theorem mem_dedupStr_thread {entry : Frames × ℤ} (h : entry ∈ r.data) :
    entry.1.threadNameOrId ∈ r.dedupStr :=
  List.mem_append_left _ (List.mem_flatMap.mpr ⟨entry, h, List.mem_cons_self⟩)

theorem mem_dedupStr_symbol {symbol : Symbol} (h : symbol ∈ r.symbols) {s : String}
    (hs : s ∈ [symbol.demangledName, symbol.sysName, symbol.fileName]) : s ∈ r.dedupStr := by
  obtain ⟨entry, hentry, hsymbol⟩ := List.mem_flatMap.mp h
  refine List.mem_append_left _ (List.mem_flatMap.mpr ⟨entry, hentry, ?_⟩)
  exact List.mem_cons_of_mem _ (List.mem_flatMap.mpr ⟨symbol, hsymbol, hs⟩)

theorem StringOrder.finds (order : StringOrder r) {symbol : Symbol} (h : symbol ∈ r.symbols) :
    Finds (strings order.strTbl) order.position symbol where
  name := (order.lookup_strings (mem_dedupStr_symbol h (by simp))).1
  systemName := (order.lookup_strings (mem_dedupStr_symbol h (by simp))).1
  filename := (order.lookup_strings (mem_dedupStr_symbol h (by simp))).1

/-- What `pprof` returns. -/
def profile (r : Report) (order : StringOrder r) : Protos.Profile :=
  let timeValue : Protos.ValueType := ⟨order.position CPU, order.position NANOSECONDS⟩
  { sampleType := [⟨order.position SAMPLES, order.position COUNT⟩, timeValue]
    sample := r.data.map (sampleOf order.position r.timing.frequency r.rows)
    stringTable := order.strTbl
    function := r.rows.mapIdx (functionRow order.position)
    location := r.rows.mapIdx locationRow
    timeNanos := wrap 64 (max 0 r.timing.startTime)
    durationNanos := wrap 64 r.timing.duration
    periodType := some timeValue
    period := (1000000000 : ℤ).tdiv r.timing.frequency }

/-- The divisions of `pprof` do not panic. -/
structure Divides (r : Report) : Prop where
  frequency : r.timing.frequency ≠ 0
  nanos : ∀ entry ∈ r.data,
    wrap 64 (entry.2 * 1000000000) = -2 ^ 63 → r.timing.frequency ≠ -1

omit [Demangle] in
theorem divides_of_pos (h : 0 < r.timing.frequency) : r.Divides where
  frequency := by omega
  nanos _ _ _ := by omega

omit [Demangle] in
/-- Where no product overflows, none is the least `i64`: that is no multiple of
the factor. -/
theorem divides_of_inRange (hfrequency : r.timing.frequency ≠ 0)
    (hcounts : ∀ entry ∈ r.data, InRange 64 (entry.2 * 1000000000)) : r.Divides where
  frequency := hfrequency
  nanos entry he hmin := by
    rw [wrap_eq (by decide) (hcounts entry he)] at hmin
    omega

/-- **`pprof` returns**, whatever the order of the strings. -/
theorem pprof_eq_of_divides (order : StringOrder r) (h : r.Divides) :
    r.pprof order = some (r.profile order) := by
  have hconst : ∀ s ∈ [SAMPLES, COUNT, CPU, NANOSECONDS, THREAD],
      (strings order.strTbl).lookup s = some (order.position s) :=
    fun s hs => (order.lookup_strings (List.mem_append_right _ hs)).1
  -- every string is in the table, so each lookup of the loop finds it
  have hdata : ∀ entry ∈ r.data,
      (wrap 64 (entry.2 * 1000000000) = -2 ^ 63 → r.timing.frequency ≠ -1) ∧
      (strings order.strTbl).lookup entry.1.threadNameOrId
        = some (order.position entry.1.threadNameOrId) ∧
      ∀ s ∈ entry.1.frames.flatten, Finds (strings order.strTbl) order.position s :=
    fun entry he => ⟨h.nanos entry he, (order.lookup_strings (mem_dedupStr_thread he)).1,
      fun s hs => order.finds (List.mem_flatMap.mpr ⟨entry, he, hs⟩)⟩
  obtain ⟨t, hsamples, ht⟩ := samples_represents (hconst THREAD (by simp)) h.frequency hdata
    (represents_nil order.position)
  -- the period is divided before the loop, by the same frequency
  have hperiod : i64Div 1000000000 r.timing.frequency
      = some ((1000000000 : ℤ).tdiv r.timing.frequency) :=
    i64Div_eq h.frequency fun hmin => absurd hmin (by decide)
  rw [pprof]
  simp only [Option.bind_eq_bind, Option.bind_some, hsamples, valueType,
    hconst SAMPLES (by simp), hconst COUNT (by simp), hconst CPU (by simp),
    hconst NANOSECONDS (by simp), hperiod, ht.fnTbl, ht.locTbl]
  rfl

theorem pprof_eq (order : StringOrder r) (hfrequency : 0 < r.timing.frequency) :
    r.pprof order = some (r.profile order) := pprof_eq_of_divides order (divides_of_pos hfrequency)

end Report

end Pprof
