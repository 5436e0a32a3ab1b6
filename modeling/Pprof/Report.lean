/-
Reports: what the profiler has collected, counted by resolved stack.

`Report` and `ReportBuilder` follow `report.rs`.  A report is a hash map; its
pairs are listed in the order in which the map is iterated.  Building one reads
the entries of the collector, takes those with a positive count, resolves each
and lets the post processor rewrite it, and adds the counts of equal results.

`keyed key es` lists the entries that are counted, each with the key it is
counted under; `collect key es` is the hash map that comes of it.  Entries may
be counted under one key, so a count in a report has parts: `part key es f k`
is what the entries of the class `k` contribute to the key `f`.

* `sum_collect`, `sum_part` — over a report, the counts and the parts of a
  class add up to those of the entries, whatever the keys are;
* `ReportBuilder.buildAndClear_cases` — everything a report call can do.
-/
import Pprof.Profiler

open ByteFile Weight Wrapping

namespace Pprof

/-- `Report`. -/
structure Report where
  data : List (Frames × ℤ)
  timing : ReportTiming
  distinct : KeysDistinct Prod.fst data

/-- The sum of the counts of a report. -/
def Report.total (r : Report) : ℤ := (r.data.map Prod.snd).sum

/-- `UnresolvedReport`. -/
structure UnresolvedReport (F : Type*) [Frame F] where
  data : List (UnresolvedFrames F × ℤ)
  timing : ReportTiming
  distinct : KeysDistinct Prod.fst data

/-! ### Counting entries under keys -/

section Collect

variable {K R : Type*}

/-- The entries with a positive count, each under its key: the `i`-th of them
under `key i`. -/
def keyed (key : ℕ → K → R) (es : List (Entry K)) : List (R × Entry K) :=
  (es.filter fun entry => 0 < entry.count).zipIdx.map fun e => (key e.2 e.1.item, e.1)

variable [BEq R]

/-- The loop that fills `hash_map`. -/
def collect (key : ℕ → K → R) (es : List (Entry K)) : List (R × ℤ) :=
  tallyAll (fun value count => wrap 64 (value + count))
    ((keyed key es).map fun c => (c.1, c.2.count))

theorem distinct_collect (key : ℕ → K → R) (es : List (Entry K)) :
    KeysDistinct Prod.fst (collect key es) := keysDistinct_tallyAll _ _

/-- All counts are positive and their sum is an `isize`. -/
structure Exact (es : List (Entry K)) : Prop where
  pos : ∀ e ∈ es, 0 < e.count
  sum_lt : (es.map Entry.count).sum < 2 ^ 63

omit [BEq R] in
/-- All entries are counted, each at its place. -/
theorem Exact.keyed_eq {es : List (Entry K)} (h : Exact es) (key : ℕ → K → R) :
    keyed key es = es.zipIdx.map fun e => (key e.2 e.1.item, e.1) := by
  have hfilter : (es.filter fun entry => 0 < entry.count) = es :=
    List.filter_eq_self.mpr fun e he => by simpa using h.pos e he
  rw [keyed, hfilter]

omit [BEq R] in
theorem Exact.getElem?_keyed {es : List (Entry K)} (h : Exact es) (key : ℕ → K → R) {i : ℕ}
    (hi : i < es.length) : (keyed key es)[i]? = some (key i es[i].item, es[i]) := by
  rw [h.keyed_eq, List.getElem?_map, List.getElem?_zipIdx, List.getElem?_eq_getElem hi]
  simp

omit [BEq R] in
theorem Exact.map_snd_keyed {es : List (Entry K)} (h : Exact es) (key : ℕ → K → R) :
    (keyed key es).map Prod.snd = es := by
  rw [h.keyed_eq, List.map_map]
  exact List.zipIdx_map_fst 0 es

omit [BEq R] in
theorem Exact.sum_keyed {es : List (Entry K)} (h : Exact es) (key : ℕ → K → R) :
    ((keyed key es).map fun c => c.2.count).sum = (es.map Entry.count).sum := by
  have hmap : (keyed key es).map (fun c => c.2.count)
      = ((keyed key es).map Prod.snd).map Entry.count := by rw [List.map_map]; rfl
  rw [hmap, h.map_snd_keyed]

omit [BEq R] in
/-- An entry that is counted, and its key. -/
theorem mem_keyed {key : ℕ → K → R} {es : List (Entry K)} {c : R × Entry K}
    (h : c ∈ keyed key es) : c.2 ∈ es ∧ ∃ i, c.1 = key i c.2.item := by
  obtain ⟨e, he, rfl⟩ := List.mem_map.mp h
  obtain ⟨_, _, hmem⟩ := List.mem_zipIdx he
  refine ⟨?_, e.2, rfl⟩
  rw [hmem]
  exact (List.mem_filter.mp (List.getElem_mem _)).1

/-- Every key of the hash map is one that an entry is counted under. -/
theorem exists_mem_keyed {key : ℕ → K → R} {es : List (Entry K)} {p : R × ℤ}
    (h : p ∈ collect key es) : ∃ c ∈ keyed key es, c.1 = p.1 := by
  obtain ⟨q, hq, hqp⟩ := key_of_mem_tallyAll _ h
  obtain ⟨c, hc, rfl⟩ := List.mem_map.mp hq
  exact ⟨c, hc, hqp⟩

variable [EquivBEq R]

/-- Every entry that is counted has a key in the hash map. -/
theorem exists_mem_collect {key : ℕ → K → R} {es : List (Entry K)} {c : R × Entry K}
    (hc : c ∈ keyed key es) : ∃ p ∈ collect key es, p.1 == c.1 := by
  have hmem : (c.1, c.2.count) ∈ (keyed key es).map fun c => (c.1, c.2.count) :=
    List.mem_map_of_mem hc
  exact mem_tallyAll_key (fun value count => wrap 64 (value + count)) hmem

/-- The hash map holds for each key the counts of the entries under it. -/
theorem weight_collect {es : List (Entry K)} (h : Exact es) (key : ℕ → K → R) (f : R) :
    weight Prod.fst Prod.snd f (collect key es)
      = weight Prod.fst (fun c => c.2.count) f (keyed key es) := by
  -- no sum of the counts reaches the end of isize, so nothing wraps
  have hadd : ∀ a b : ℤ, 0 ≤ a → 0 ≤ b → a + b ≤ 2 ^ 63 - 1 → wrap 64 (a + b) = a + b := by
    intro a b ha hb hab
    refine wrap_eq (by decide) ⟨?_, ?_⟩
    · omega
    · show a + b < 2 ^ 63
      omega
  have hpos : ∀ p ∈ (keyed key es).map fun c => (c.1, c.2.count), 0 ≤ p.2 := by
    intro p hp
    obtain ⟨c, hc, rfl⟩ := List.mem_map.mp hp
    have hmem : c.2 ∈ es := h.map_snd_keyed key ▸ List.mem_map_of_mem hc
    exact (h.pos _ hmem).le
  have hsum : (((keyed key es).map fun c => (c.1, c.2.count)).map Prod.snd).sum ≤ 2 ^ 63 - 1 := by
    have hlt := h.sum_lt
    have hkeyed := h.sum_keyed key
    rw [List.map_map]
    show ((keyed key es).map fun c => c.2.count).sum ≤ 2 ^ 63 - 1
    omega
  rw [collect, weight_tallyAll hadd hpos hsum, weight_map]

/-- No key is lost and no count is counted twice, however the keys merge. -/
theorem sum_collect {es : List (Entry K)} (h : Exact es) (key : ℕ → K → R) :
    ((collect key es).map Prod.snd).sum = (es.map Entry.count).sum := by
  have hweight : ∀ f, weight Prod.fst Prod.snd f (collect key es)
      = weight Prod.fst Prod.snd f ((keyed key es).map fun c => (c.1, c.2.count)) := by
    intro f
    rw [weight_collect h, weight_map]
  rw [sum_eq_of_weight_eq hweight, List.map_map]
  exact h.sum_keyed key

/-- The count of a key is the sum of the counts of the entries under it. -/
theorem count_collect {es : List (Entry K)} (h : Exact es) (key : ℕ → K → R) {p : R × ℤ}
    (hp : p ∈ collect key es) :
    p.2 = weight Prod.fst (fun c => c.2.count) p.1 (keyed key es) := by
  rw [← weight_collect h, weight_eq_of_mem (distinct_collect key es) hp]

/-- The count of a key, if a property selects the entries that are counted under it. -/
theorem count_collect_eq_sumWhere {es : List (Entry K)} (h : Exact es) {key : ℕ → K → R}
    {p : R × ℤ} (hp : p ∈ collect key es) {P : R → Bool}
    (hP : ∀ c ∈ keyed key es, P c.1 = (c.1 == p.1)) :
    p.2 = sumWhere Prod.fst (fun c => c.2.count) P (keyed key es) := by
  rw [count_collect h key hp, ← sum_filter_key, sumWhere, List.filter_congr hP]

/-- A property of keys that only depends on the entry selects the counts of the
entries that have it. -/
theorem sumWhere_collect {es : List (Entry K)} (h : Exact es) (key : ℕ → K → R) {P : R → Bool}
    (hP : ∀ a b : R, a == b → P a = P b) {Q : K → Bool}
    (hQ : ∀ e ∈ es, ∀ i, P (key i e.item) = Q e.item) :
    sumWhere Prod.fst Prod.snd P (collect key es) = sumWhere Entry.item Entry.count Q es := by
  have hweight : ∀ f, weight Prod.fst Prod.snd f (collect key es)
      = weight Prod.fst Prod.snd f ((keyed key es).map fun c => (c.1, c.2.count)) := by
    intro f
    rw [weight_collect h, weight_map]
  -- a key has the property exactly if its entries have theirs
  have hselect : ((keyed key es).map fun c => (c.1, c.2.count)).filter (fun p => P p.1)
      = ((keyed key es).filter fun c => Q c.2.item).map fun c => (c.1, c.2.count) := by
    rw [List.filter_map]
    refine congrArg _ (List.filter_congr fun c hc => ?_)
    obtain ⟨he, i, hi⟩ := mem_keyed hc
    show P c.1 = Q c.2.item
    rw [hi, hQ _ he]
  have hentries : ((keyed key es).filter fun c => Q c.2.item).map (fun c => c.2.count)
      = (es.filter fun e => Q e.item).map Entry.count := by
    conv_rhs => rw [← h.map_snd_keyed key, List.filter_map, List.map_map]
    rfl
  rw [sumWhere_eq_of_weight_eq hP hweight, sumWhere, hselect, List.map_map]
  exact congrArg List.sum hentries

variable [BEq K]

/-- What the entries of the class `k` contribute to the key `f`. -/
def part (key : ℕ → K → R) (es : List (Entry K)) (f : R) (k : K) : ℤ :=
  weight Prod.fst (fun c => c.2.count) f ((keyed key es).filter fun c => c.2.item == k)

/-- The parts of a class add up to what was collected for it. -/
theorem sum_part {es : List (Entry K)} (h : Exact es) (key : ℕ → K → R) (k : K) :
    ((collect key es).map fun p => part key es p.1 k).sum = countOf k es := by
  set keyedOf := (keyed key es).filter fun c => c.2.item == k with hof
  have hdistinct : KeysDistinct id ((collect key es).map Prod.fst) :=
    List.pairwise_map.mpr (distinct_collect key es)
  -- each entry of the class is counted under some key of the report
  have hcover : ∀ c ∈ keyedOf, ∃ f ∈ (collect key es).map Prod.fst, f == c.1 := by
    intro c hc
    obtain ⟨q, hq, hqc⟩ := exists_mem_collect (List.mem_filter.mp hc).1
    exact ⟨q.1, List.mem_map_of_mem hq, hqc⟩
  -- so the parts under all keys sum to the class
  have hparts : (((collect key es).map Prod.fst).map fun f =>
      weight Prod.fst (fun c => c.2.count) f keyedOf).sum
        = (keyedOf.map fun c => c.2.count).sum := sum_weight_eq_sum hdistinct hcover
  have hclass : (keyedOf.map fun c => c.2.count).sum
      = weight (fun c : R × Entry K => c.2.item) (fun c => c.2.count) k (keyed key es) :=
    sum_filter_key _
  rw [List.map_map] at hparts
  show ((collect key es).map ((fun f => weight Prod.fst (fun c => c.2.count) f keyedOf) ∘
    Prod.fst)).sum = countOf k es
  rw [hparts, hclass, ← h.map_snd_keyed key, countOf, weight_map, h.map_snd_keyed]

end Collect

/-! ### Building a report -/

/-- `ReportBuilder`; the processor is told how many entries it has seen. -/
structure ReportBuilder where
  framesPostProcessor : Option (ℕ → Frames → Frames)
  timing : ReportTiming

namespace ReportBuilder

variable {F B : Type*} [Frame F]

/-- The key of the `i`-th counted entry in a report. -/
def framesKey [Demangle] (rb : ReportBuilder) (perfmap : ℕ → ℕ → ℕ → Option Symbol) (i : ℕ)
    (item : UnresolvedFrames F) : Frames :=
  let key := Frames.ofUnresolved (perfmap i) item
  match rb.framesPostProcessor with
  | some processor => processor i key
  | none => key

/-- The report of the entries `es`. -/
def report [Demangle] (rb : ReportBuilder) (perfmap : ℕ → ℕ → ℕ → Option Symbol)
    (es : List (Entry (UnresolvedFrames F))) : Report :=
  ⟨collect (rb.framesKey perfmap) es, rb.timing, distinct_collect _ _⟩

variable [Target] [Layout (Entry (UnresolvedFrames F)) B]

/-- `ReportBuilder::build_unresolved`: the report and the profiler after the
call, of which it has a shared reference. -/
def buildUnresolved (rb : ReportBuilder) (io : Io) (profiler : Except Error (Profiler F B)) :
    Except Error (UnresolvedReport F) × Except Error (Profiler F B) :=
  match profiler with
  | .error err => (.error .creatingError, .error err)
  | .ok p =>
    match p.data.tryIter io with
    | .error err => (.error (.ioError err), .ok p)
    | .ok es => (.ok ⟨collect (fun _ key => key) es, rb.timing, distinct_collect _ _⟩, .ok p)

/-- `ReportBuilder::build_and_clear`: the report and the profiler after the
call. -/
def buildAndClear [Demangle] (rb : ReportBuilder) (io : Io)
    (perfmap : ℕ → ℕ → ℕ → Option Symbol) (clear : Bool)
    (profiler : Except Error (Profiler F B)) :
    Except Error Report × Except Error (Profiler F B) :=
  match profiler with
  | .error err => (.error .creatingError, .error err)
  | .ok p =>
    match p.data.tryIter io with
    | .error err => (.error (.ioError err), .ok p)
    | .ok es =>
      if clear then
        -- the report is built by now; it is dropped if the clear fails
        match p.clear io with
        | (.ok (), p) => (.ok (rb.report perfmap es), .ok p)
        | (.error err, p) => (.error err, .ok p)
      else (.ok (rb.report perfmap es), .ok p)

/-- `ReportBuilder::build`. -/
def build [Demangle] (rb : ReportBuilder) (io : Io) (perfmap : ℕ → ℕ → ℕ → Option Symbol)
    (profiler : Except Error (Profiler F B)) :
    Except Error Report × Except Error (Profiler F B) :=
  rb.buildAndClear io perfmap false profiler

/-- `build_unresolved` fails to read, or reads. -/
theorem buildUnresolved_cases (rb : ReportBuilder) (io : Io) (p : Profiler F B) :
    (∃ err, p.data.tryIter io = .error err ∧
      rb.buildUnresolved io (.ok p) = (.error (.ioError err), .ok p)) ∨
    ∃ es, p.data.tryIter io = .ok es ∧ rb.buildUnresolved io (.ok p)
      = (.ok ⟨collect (fun _ key => key) es, rb.timing, distinct_collect _ _⟩, .ok p) := by
  rw [buildUnresolved]
  cases p.data.tryIter io with
  | error err => exact .inl ⟨err, rfl, rfl⟩
  | ok es => exact .inr ⟨es, rfl, rfl⟩

/-- `build_unresolved` leaves the profiler as it is. -/
theorem buildUnresolved_keeps (rb : ReportBuilder) (io : Io)
    (profiler : Except Error (Profiler F B)) :
    (rb.buildUnresolved io profiler).2 = profiler := by
  cases profiler with
  | error err => rfl
  | ok p =>
    obtain ⟨_, _, hbuild⟩ | ⟨_, _, hbuild⟩ := rb.buildUnresolved_cases io p
    · rw [hbuild]
    · rw [hbuild]

/-- Everything a report call can do to a profiler: fail to read; read only;
read and clear; or read and fail to clear. -/
theorem buildAndClear_cases [Demangle] (rb : ReportBuilder) (io : Io)
    (perfmap : ℕ → ℕ → ℕ → Option Symbol) (clear : Bool) (p : Profiler F B) :
    (∃ err, p.data.tryIter io = .error err ∧
      rb.buildAndClear io perfmap clear (.ok p) = (.error (.ioError err), .ok p)) ∨
    ∃ es, p.data.tryIter io = .ok es ∧
      ((clear = false ∧
        rb.buildAndClear io perfmap clear (.ok p) = (.ok (rb.report perfmap es), .ok p)) ∨
      (clear = true ∧ (p.clear io).1 = .ok () ∧ rb.buildAndClear io perfmap clear (.ok p)
        = (.ok (rb.report perfmap es), .ok (p.clear io).2)) ∨
      (clear = true ∧ ∃ err, (p.clear io).1 = .error err ∧
        rb.buildAndClear io perfmap clear (.ok p) = (.error err, .ok (p.clear io).2))) := by
  cases hread : p.data.tryIter io with
  | error err =>
    refine .inl ⟨err, rfl, ?_⟩
    rw [buildAndClear]
    simp only [hread]
  | ok es =>
    refine .inr ⟨es, rfl, ?_⟩
    rw [buildAndClear]
    simp only [hread]
    cases clear with
    | false => exact .inl ⟨rfl, rfl⟩
    | true =>
      -- the report is dropped when the clear behind it fails
      rcases hclear : p.clear io with ⟨_ | ⟨⟨⟩⟩, p'⟩
      · exact .inr (.inr ⟨rfl, _, rfl, rfl⟩)
      · exact .inr (.inl ⟨rfl, rfl, rfl⟩)

/-- A running profiler whose file operations succeed returns the report that
clears it. -/
theorem buildAndClear_running [Demangle] (rb : ReportBuilder)
    (perfmap : ℕ → ℕ → ℕ → Option Symbol) {p : Profiler F B} (hrun : p.running = true)
    {es : List (Entry (UnresolvedFrames F))} (hread : p.data.tryIter Io.ok = .ok es) :
    rb.buildAndClear Io.ok perfmap true (.ok p) = (.ok (rb.report perfmap es),
      .ok { p with sampleCounter := 0, data := (p.data.clear Io.ok).2 }) := by
  obtain ⟨hstopped, _⟩ | ⟨_, _, hclear⟩ | ⟨_, hio, _⟩ := p.clear_cases Io.ok
  · rw [hrun] at hstopped
    cases hstopped
  · rw [buildAndClear]
    simp only [hread, if_true, hclear]
  · cases hio

/-- A call that does not clear leaves the profiler as it is. -/
theorem buildAndClear_keeps [Demangle] (rb : ReportBuilder) (io : Io)
    (perfmap : ℕ → ℕ → ℕ → Option Symbol) (p : Profiler F B) :
    (rb.buildAndClear io perfmap false (.ok p)).2 = .ok p := by
  obtain ⟨_, _, h⟩ | ⟨_, _, ⟨_, h⟩ | ⟨hc, _⟩ | ⟨hc, _⟩⟩ :=
    rb.buildAndClear_cases io perfmap false p
  · rw [h]
  · rw [h]
  · cases hc
  · cases hc

/-- What a report call leaves of a profiler: all of it, or all but what was
collected. -/
theorem buildAndClear_snd [Demangle] (rb : ReportBuilder) (io : Io)
    (perfmap : ℕ → ℕ → ℕ → Option Symbol) (clear : Bool) (p : Profiler F B) :
    ∃ p', (rb.buildAndClear io perfmap clear (.ok p)).2 = .ok p' ∧
      (p' = p ∨ p' = { p with sampleCounter := 0, data := (p.data.clear io).2 }) := by
  have hclear : (p.clear io).2 = p ∨
      (p.clear io).2 = { p with sampleCounter := 0, data := (p.data.clear io).2 } := by
    obtain ⟨_, h⟩ | ⟨_, _, h⟩ | ⟨_, _, h⟩ := p.clear_cases io
    · exact .inl (by rw [h])
    · exact .inr (by rw [h])
    · exact .inr (by rw [h])
  obtain ⟨_, _, h⟩ | ⟨_, _, ⟨_, h⟩ | ⟨_, _, h⟩ | ⟨_, _, _, h⟩⟩ :=
    rb.buildAndClear_cases io perfmap clear p
  · exact ⟨p, by rw [h], .inl rfl⟩
  · exact ⟨p, by rw [h], .inl rfl⟩
  · exact ⟨_, by rw [h], hclear⟩
  · exact ⟨_, by rw [h], hclear⟩

end ReportBuilder

end Pprof

/-! ### Given stacks

To evaluate runs, a frame is its address, which resolves to nothing, and the
memory image of an entry is one symbolic byte. -/

namespace Pprof.Given

scoped instance : Target := Target.linux
scoped instance : Frame ℕ := ⟨id, id, fun _ => []⟩
scoped instance : DefaultHasher := DefaultHasher.sip
scoped instance : Demangle := ⟨id⟩

/-- The entries of the collector in such runs. -/
abbrev Item := Entry (UnresolvedFrames ℕ)

scoped instance : PlainLayout Item Item := PlainLayout.cell Item

/-- The name of the thread `main`. -/
def threadName : ThreadName := ⟨[0x6D, 0x61, 0x69, 0x6E], by decide⟩

/-- A stack of one function, in one thread. -/
def stack (address : ℕ) : UnresolvedFrames ℕ := .new [address] threadName 0x7FFFF7D8A740 0

end Pprof.Given
