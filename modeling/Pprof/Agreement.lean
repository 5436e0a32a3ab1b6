/-
The resolved and the unresolved report agree.

`build_unresolved` counts entries under themselves, `build` under what they
resolve to.  Both read the same entries, which count the samples of the window
(`Counts`), so both are what the samples say: the unresolved report gives for
each stack the number of samples equal to it, and grouping either report by
what its keys resolve to gives the same sums.

* `find?_collect`, `get_collect` — what a hash map that was counted into holds for a
  key, and for a key that is an entry's own;
* `Counts.selected` — the counts of the entries with a property of stacks are
  the number of samples with it;
* `reports_agree` — the two reports in every state that is reached without
  failures and overflow.
-/
import Pprof.Periodic

open ByteFile Transition Weight

namespace Pprof

/-! ### Looking up a count -/

section Collect

variable {K R : Type*} [BEq K] [EquivBEq K] [BEq R] [EquivBEq R]

omit [BEq K] [EquivBEq K] in
/-- The hash map has a key exactly if entries are counted under it. -/
theorem find?_collect {es : List (Entry K)} (h : Exact es) (key : ℕ → K → R) (f : R) :
    ((collect key es).find? (·.1 == f)).map Prod.snd
      = if weight Prod.fst (fun c => c.2.count) f (keyed key es) = 0 then none
        else some (weight Prod.fst (fun c => c.2.count) f (keyed key es)) := by
  have hpos : ∀ c ∈ keyed key es, 0 < c.2.count := fun c hc => h.pos c.2 (mem_keyed hc).1
  rw [find?_key (distinct_collect _ _), weight_collect h]
  -- counts are positive, so a key is there exactly if its weight is not zero
  by_cases hany : (collect key es).any (·.1 == f)
  · obtain ⟨p, hp, hpf⟩ := List.any_eq_true.mp hany
    obtain ⟨c, hc, hcp⟩ := exists_mem_keyed hp
    rw [if_pos hany, if_neg (weight_pos hpos ⟨c, hc, hcp ▸ hpf⟩).ne']
  · have hnone : ∀ c ∈ keyed key es, (c.1 == f) = false := by
      intro c hc
      obtain ⟨p, hp, hpc⟩ := exists_mem_collect hc
      by_contra hcf
      exact hany (List.any_eq_true.mpr ⟨p, hp, BEq.trans hpc (by simpa using hcf)⟩)
    rw [if_neg hany, if_pos (weight_eq_zero hnone)]

/-- Entries that are counted under themselves keep their weights. -/
theorem weight_collect_self {es : List (Entry K)} (h : Exact es) (k : K) :
    weight Prod.fst Prod.snd k (collect (fun _ key => key) es) = countOf k es := by
  have hself : weight Prod.fst (fun c => c.2.count) k (keyed (fun _ key => key) es)
      = weight (fun c => c.2.item) (fun c => c.2.count) k (keyed (fun _ key => key) es) := by
    rw [keyed, weight_map, weight_map]
  rw [weight_collect h, hself, countOf, ← h.map_snd_keyed fun _ key => key, weight_map,
    h.map_snd_keyed]

theorem get_collect {es : List (Entry K)} (h : Exact es) (k : K) :
    ((collect (fun _ key => key) es).find? (·.1 == k)).map Prod.snd
      = if countOf k es = 0 then none else some (countOf k es) := by
  rw [find?_collect h, ← weight_collect h, weight_collect_self h]

end Collect

/-- `HashMap::get` on the data of the report. -/
def UnresolvedReport.get {F : Type*} [Frame F] (r : UnresolvedReport F)
    (k : UnresolvedFrames F) : Option ℤ := (r.data.find? (·.1 == k)).map Prod.snd

variable {F B : Type*} [Frame F]

/-! ### Counting samples -/

theorem countOf_entry (k : UnresolvedFrames F) (window : List (Sample F)) :
    countOf k (window.map Sample.entry)
      = ((window.map Sample.frames).filter (· == k)).length := by
  induction window with
  | nil => rfl
  | cons x window ih =>
    have hcons : countOf k ((x :: window).map Sample.entry)
        = (if x.frames == k then 1 else 0) + countOf k (window.map Sample.entry) := rfl
    rw [hcons, ih, List.map_cons, List.filter_cons]
    by_cases hx : x.frames == k
    · rw [if_pos hx, if_pos hx, List.length_cons]
      omega
    · rw [if_neg hx, if_neg hx, zero_add]

omit [Frame F] in
theorem sumWhere_entry (Q : UnresolvedFrames F → Bool) (window : List (Sample F)) :
    sumWhere Entry.item Entry.count Q (window.map Sample.entry)
      = ((window.map Sample.frames).filter Q).length := by
  induction window with
  | nil => rfl
  | cons x window ih =>
    rw [List.map_cons, sumWhere_cons, ih, List.map_cons, List.filter_cons]
    show (if Q x.frames then (1 : ℤ) else 0) + _ = _
    by_cases hx : Q x.frames
    · rw [if_pos hx, if_pos hx, List.length_cons]
      omega
    · rw [if_neg hx, if_neg hx, zero_add]

section Counts

variable [Target] [PlainLayout (Entry (UnresolvedFrames F)) B]

/-- The entries count the samples, however they are selected. -/
theorem Counts.selected {p : Profiler F B} {window : List (Sample F)}
    {es : List (Entry (UnresolvedFrames F))} (h : Counts p window es)
    {Q : UnresolvedFrames F → Bool} (hQ : ∀ u v : UnresolvedFrames F, u == v → Q u = Q v) :
    sumWhere Entry.item Entry.count Q es = ((window.map Sample.frames).filter Q).length := by
  rw [sumWhere_eq_of_weight_eq hQ h.count, sumWhere_entry]

end Counts

/-! ### The two reports -/

variable [Demangle]

/-- Equal recorded stacks resolve to equal lists of frames, whenever they are
resolved. -/
def ResolveAlike (F : Type*) [Frame F] (perfmap : ℕ → ℕ → ℕ → Option Symbol) : Prop :=
  ∀ u v : UnresolvedFrames F, u == v → ∀ i j,
    (Frames.ofUnresolved (perfmap i) u).frames == (Frames.ofUnresolved (perfmap j) v).frames

namespace ReportBuilder

/-- Without a post processor a key is the entry, resolved. -/
theorem framesKey_eq {rb : ReportBuilder} (h : rb.framesPostProcessor = none)
    (perfmap : ℕ → ℕ → ℕ → Option Symbol) (i : ℕ) (item : UnresolvedFrames F) :
    rb.framesKey perfmap i item = Frames.ofUnresolved (perfmap i) item := by
  rw [framesKey, h]

end ReportBuilder

/-- The keys with these frames and this thread. -/
def isStack (frames : List (List Symbol)) (threadId : UInt64) (f : Frames) : Bool :=
  f.frames == frames && f.threadId == threadId

omit [Demangle] in
theorem isStack_congr {frames : List (List Symbol)} {threadId : UInt64} {f g : Frames}
    (hframes : f.frames == g.frames) (hthread : f.threadId = g.threadId) :
    isStack frames threadId f = isStack frames threadId g := by
  rw [isStack, isStack, hthread, Bool.eq_iff_iff]
  simp only [Bool.and_eq_true, Frames.frames_beq_iff]
  rw [(Frames.frames_beq_iff _ _).mp hframes]

variable [Target] [PlainLayout (Entry (UnresolvedFrames F)) B]

omit [Demangle] in
/-- The unresolved report of entries that count the samples of the window. -/
theorem Counts.getUnresolved {p : Profiler F B} {window : List (Sample F)}
    {items : List (Entry (UnresolvedFrames F))} (h : Counts p window items)
    (hlt : (window.length : ℤ) < 2 ^ 63) (timing : ReportTiming) (k : UnresolvedFrames F) :
    UnresolvedReport.get ⟨collect (fun _ key => key) items, timing, distinct_collect _ _⟩ k
      = if ((window.map Sample.frames).filter (· == k)).length = 0 then none
        else some (((window.map Sample.frames).filter (· == k)).length : ℤ) := by
  have hcount := h.count k
  rw [countOf_entry] at hcount
  rw [UnresolvedReport.get, get_collect (h.exact hlt), hcount]
  simp only [Nat.cast_eq_zero]

/-- The two reports of entries that count the samples of the window. -/
theorem Counts.agree {p : Profiler F B} {window : List (Sample F)}
    {items : List (Entry (UnresolvedFrames F))} (h : Counts p window items)
    (hlt : (window.length : ℤ) < 2 ^ 63) {perfmap : ℕ → ℕ → ℕ → Option Symbol}
    (halike : ResolveAlike F perfmap) {rb : ReportBuilder} (hnone : rb.framesPostProcessor = none)
    (frames : List (List Symbol)) (threadId : UInt64) (j : ℕ) :
    sumWhere Prod.fst Prod.snd (isStack frames threadId) (rb.report perfmap items).data
      = sumWhere Prod.fst Prod.snd
          (fun u => isStack frames threadId (Frames.ofUnresolved (perfmap j) u))
          (collect (fun _ key => key) items) := by
  have hexact := h.exact hlt
  have hframes : ∀ f g : Frames, f == g →
      isStack frames threadId f = isStack frames threadId g := by
    intro f g hfg
    have hkey := (Frames.beq_iff f g).mp hfg
    refine isStack_congr ((Frames.frames_beq_iff _ _).mpr (congrArg Prod.fst hkey)) ?_
    exact congrArg (fun k => k.2.2.1) hkey
  have hclass : ∀ u v : UnresolvedFrames F, u == v →
      isStack frames threadId (Frames.ofUnresolved (perfmap j) u)
        = isStack frames threadId (Frames.ofUnresolved (perfmap j) v) := by
    intro u v huv
    exact isStack_congr (halike u v huv j j) (congrArg Prod.snd (UnresolvedFrames.beq_iff.mp huv))
  -- both sides select the same entries
  have hresolved : ∀ e ∈ items, ∀ i, isStack frames threadId (rb.framesKey perfmap i e.item)
      = isStack frames threadId (Frames.ofUnresolved (perfmap j) e.item) := by
    intro e _ i
    rw [ReportBuilder.framesKey_eq hnone]
    exact isStack_congr (halike _ _ BEq.rfl i j) rfl
  have hunresolved : sumWhere Prod.fst Prod.snd
      (fun u => isStack frames threadId (Frames.ofUnresolved (perfmap j) u))
      (collect (fun _ key => key) items)
        = sumWhere Entry.item Entry.count
          (fun u => isStack frames threadId (Frames.ofUnresolved (perfmap j) u)) items :=
    sumWhere_collect hexact _ hclass fun _ _ _ => rfl
  rw [hunresolved]
  exact sumWhere_collect hexact _ hframes hresolved

namespace State

variable [DefaultHasher]

/-- **The resolved and the unresolved report agree** in every state that is
reached without failures and overflow, if equal stacks resolve alike.  The
unresolved report maps each stack to the number of samples equal to it that
were taken since the collector was created or last cleared, and has no key for
zero; and for every list of frames and every thread the counts of the resolved
report are those of the stacks that resolve to it. -/
theorem reports_agree {s₀ s : State F B} (hinit : Init s₀) {es : List (Event F)}
    (hrun : run step s₀ es = some s) (hclean : Along step Clean s₀ es)
    {p : Profiler F B} (hp : s.profiler = .ok p) {perfmap : ℕ → ℕ → ℕ → Option Symbol}
    (halike : ResolveAlike F perfmap) {rb : ReportBuilder} (hnone : rb.framesPostProcessor = none)
    (rb' : ReportBuilder) :
    ∃ resolved unresolved, rb.build Io.ok perfmap (.ok p) = (.ok resolved, .ok p) ∧
      rb'.buildUnresolved Io.ok (.ok p) = (.ok unresolved, .ok p) ∧
      (∀ k, unresolved.get k =
        if ((s.window.map Sample.frames).filter (· == k)).length = 0 then none
        else some (((s.window.map Sample.frames).filter (· == k)).length : ℤ)) ∧
      ∀ frames threadId j,
        sumWhere Prod.fst Prod.snd (isStack frames threadId) resolved.data
          = sumWhere Prod.fst Prod.snd
              (fun u => isStack frames threadId (Frames.ofUnresolved (perfmap j) u))
              unresolved.data := by
  -- both builders read the same items, so each is compared with them
  have hs : Tracked s := run_invariant_along (fun _ _ _ hs hc h => hs.step hc h) hinit.tracked
    hclean hrun
  have hlt := hs.lt hp
  obtain ⟨items, hitems, hread, hbuild⟩ := hs.build hp rb perfmap
  obtain ⟨err, herr, _⟩ | ⟨items', hread', hbuild'⟩ := rb'.buildUnresolved_cases Io.ok p
  · rw [hread] at herr
    cases herr
  · obtain rfl := Except.ok.inj (hread.symm.trans hread')
    exact ⟨_, _, hbuild, hbuild', hitems.getUnresolved hlt rb'.timing,
      hitems.agree hlt halike hnone⟩

end State

end Pprof

/-! ### Two addresses of one function -/

namespace Pprof.Given

/-- The function that a just-in-time compiler has put at these addresses. -/
def loop : Symbol := ⟨some [0x6C, 0x6F, 0x6F, 0x70], none, none, none⟩

def loopMap : ℕ → ℕ → ℕ → Option Symbol := fun _ _ ip =>
  if 0x402000 ≤ ip ∧ ip < 0x404000 then some loop else none

/-- The second sample is from elsewhere in the function, and the thread has got
another name before it. -/
def twoAddresses : List (Event ℕ) :=
  buildCall .default true ++ sampling ++
    [.expire, .deliver, .tryWrite 0,
      .handle Io.ok ⟨none, [0x4035B0], ⟨[0x77, 0x6F, 0x72, 0x6B], by decide⟩, 0x7FFFF7D8A740, 0⟩,
      .unlock]

theorem resolveAlike_loopMap : ResolveAlike ℕ loopMap := by
  intro u v huv i j
  have hframes : u.frames = v.frames := by
    have hmap := congrArg Prod.fst (UnresolvedFrames.beq_iff.mp huv)
    exact (List.map_id _).symm.trans (hmap.trans (List.map_id _))
  rw [Frames.ofUnresolved, Frames.ofUnresolved, hframes]
  exact BEq.rfl

end Pprof.Given

namespace Pprof.State

open Given

/-- The two samples are one stack of the resolved report, and two of the
unresolved one. -/
theorem reports_agree_periodic :
    ∃ (s : State ℕ Item) (p : Profiler ℕ Item) (resolved : Report)
      (unresolved : UnresolvedReport ℕ),
      run step (idle true) twoAddresses = some s ∧ s.profiler = .ok p ∧
      builder.build Io.ok loopMap (.ok p) = (.ok resolved, .ok p) ∧
      builder.buildUnresolved Io.ok (.ok p) = (.ok unresolved, .ok p) ∧
      unresolved.get (stack 0x4028B0) = some 1 ∧ unresolved.get (stack 0x4035B0) = some 1 ∧
      sumWhere Prod.fst Prod.snd (isStack [[loop]] 0x7FFFF7D8A740) resolved.data = 2 := by
  have hrun : run step (idle true : State ℕ Item) twoAddresses = some _ := rfl
  have hclean : Along step Clean (idle true : State ℕ Item) twoAddresses := by decide
  obtain ⟨resolved, unresolved, hresolved, hunresolved, hget, hagree⟩ :=
    reports_agree (idle_init true) hrun hclean rfl resolveAlike_loopMap
      (show builder.framesPostProcessor = none from rfl) builder
  refine ⟨_, _, resolved, unresolved, hrun, rfl, hresolved, hunresolved, ?_, ?_, ?_⟩
  · rw [hget]
    decide
  · rw [hget]
    decide
  · have hcount : ((run step (idle true : State ℕ Item) twoAddresses).bind fun s =>
        (builder.buildUnresolved Io.ok s.profiler).1.toOption.map fun r =>
          sumWhere Prod.fst Prod.snd (fun u => isStack [[loop]] 0x7FFFF7D8A740
            (Frames.ofUnresolved (loopMap 0) u)) r.data) = some 2 := by decide +kernel
    rw [hagree _ _ 0]
    rw [hrun, Option.bind_some, hunresolved] at hcount
    exact Option.some.inj hcount

end Pprof.State
