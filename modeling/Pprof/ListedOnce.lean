/-
Stacks that a report lists more than once.

A key of a report is a resolved stack with its thread and the time of a sample:
the time that was recorded with the entry.  So entries of one stack are listed
apart if they were made at different times, as they are when the stack was
evicted in between, or when functions share a name.  The map of the just-in-time
symbols may be replaced in the middle of a build, so each frame of each entry may
be resolved with another one.

* `Recorded.listedOnce_entries` — a report lists each stack once, whichever of
  the maps are used, if and only if the entries are alike, pair by pair;
* `listedOnce_iff` — so it does after every sample, if and only if each sample
  that makes an entry is alike with the entries that are held.
-/
import Pprof.Recording

open ByteFile Transition Weight
open scoped List

namespace Pprof

namespace Frames

/-- Equal frames, thread name and thread id. -/
def sameStack (f g : Frames) : Bool :=
  f.frames == g.frames && f.threadName == g.threadName && f.threadId == g.threadId

/-- What `sameStack` compares by. -/
def stack (f : Frames) : List (List (List UInt8)) × String × UInt64 :=
  (rawNames f.frames, f.threadName, f.threadId)

theorem sameStack_iff (f g : Frames) : f.sameStack g ↔ f.stack = g.stack := by
  simp [sameStack, stack, frames_beq_iff, and_assoc]

theorem sameStack_symm {f g : Frames} (h : ¬ f.sameStack g) : ¬ g.sameStack f := by
  rw [sameStack_iff] at h ⊢
  exact fun hgf => h hgf.symm

/-- Keys of a report are equal when the stacks and the times are. -/
theorem beq_iff_stack (f g : Frames) :
    f == g ↔ f.stack = g.stack ∧ f.sampleTimestamp = g.sampleTimestamp := by
  rw [beq_iff]
  simp [key, stack, rawNames, and_assoc]

end Frames

variable {F B : Type*} [Target] [Frame F] [Demangle] [PlainLayout (Entry (UnresolvedFrames F)) B]

omit [Frame F] in
/-- The same frames were recorded, in a thread of the same name and id. -/
def UnresolvedFrames.SameRecorded (u v : UnresolvedFrames F) : Prop :=
  u.frames = v.frames ∧
    u.threadName.take u.threadNameLength = v.threadName.take v.threadNameLength ∧
    u.threadId = v.threadId

namespace Recording

/-- Every frame is resolved with one of the maps. -/
def Drawn (maps : Set (ℕ → Option Symbol)) (r : ℕ → ℕ → Option Symbol) : Prop := ∀ n, r n ∈ maps

/-- Whichever of the maps `resolve_in_perfmap` uses at each frame of each entry:
the reports of `build` without a post processor have no two keys with equal
frames, thread name and thread id; each key has the counts of all entries that
are shown as its stack; and entries of one recorded stack are counted under one
key. -/
def ListedOnce (maps : Set (ℕ → Option Symbol)) (s : Recording F B) : Prop :=
  ∀ rb : ReportBuilder, rb.framesPostProcessor = none →
    ∀ perfmap : ℕ → ℕ → ℕ → Option Symbol, (∀ i, Drawn maps (perfmap i)) → ∃ report,
      (rb.build Io.ok perfmap (.ok s.profiler)).1 = .ok report ∧
      report.data.Pairwise (fun p q => ¬ p.1.sameStack q.1) ∧
      (∀ p ∈ report.data, p.2 = sumWhere Prod.fst (fun c => c.2.count) p.1.sameStack
        (keyed (rb.framesKey perfmap) s.held)) ∧
      (keyed (rb.framesKey perfmap) s.held).Pairwise fun c d =>
        c.2.item.SameRecorded d.2.item → c.1 == d.1

/-- Whichever of the maps they are resolved with: stacks that are shown alike
were recorded at one time, and stacks that were recorded alike are shown alike. -/
def Alike (maps : Set (ℕ → Option Symbol)) (u v : UnresolvedFrames F) : Prop :=
  ∀ r r', Drawn maps r → Drawn maps r' →
    ((Frames.ofUnresolved r u).sameStack (Frames.ofUnresolved r' v) →
      u.sampleTimestamp = v.sampleTimestamp) ∧
    (u.SameRecorded v → (Frames.ofUnresolved r u).sameStack (Frames.ofUnresolved r' v))

omit [Target] in
theorem Alike.symm {maps : Set (ℕ → Option Symbol)} {u v : UnresolvedFrames F}
    (h : Alike maps u v) : Alike maps v u := by
  intro r r' hr hr'
  obtain ⟨htime, hshown⟩ := h r' r hr' hr
  refine ⟨fun hsame => (htime ?_).symm, fun hrecorded => ?_⟩
  · rw [Frames.sameStack_iff] at hsame ⊢
    exact hsame.symm
  · have hsame := hshown ⟨hrecorded.1.symm, hrecorded.2.1.symm, hrecorded.2.2.symm⟩
    rw [Frames.sameStack_iff] at hsame ⊢
    exact hsame.symm

/-- The entries are alike, pair by pair. -/
def OneTime (maps : Set (ℕ → Option Symbol)) (es : List (Entry (UnresolvedFrames F))) : Prop :=
  (es.map Entry.item).Pairwise (Alike maps)

omit [Target] in
/-- What entries of one time are counted under: keys of one stack are equal. -/
theorem OneTime.keyed {maps : Set (ℕ → Option Symbol)} {es : List (Entry (UnresolvedFrames F))}
    (h : OneTime maps es) (hexact : Exact es) {rb : ReportBuilder}
    (hnone : rb.framesPostProcessor = none) {perfmap : ℕ → ℕ → ℕ → Option Symbol}
    (hmaps : ∀ i, Drawn maps (perfmap i)) :
    (Pprof.keyed (rb.framesKey perfmap) es).Pairwise fun c d =>
      (c.1.sameStack d.1 → c.1 == d.1) ∧ (c.2.item.SameRecorded d.2.item → c.1 == d.1) := by
  rw [hexact.keyed_eq, List.pairwise_map, List.pairwise_iff_getElem]
  intro i j hi hj hij
  rw [List.length_zipIdx] at hi hj
  have halike := List.pairwise_iff_getElem.mp h i j (by rwa [List.length_map])
    (by rwa [List.length_map]) hij
  rw [List.getElem_map, List.getElem_map] at halike
  simp only [List.getElem_zipIdx, Nat.zero_add, ReportBuilder.framesKey_eq hnone]
  obtain ⟨htime, hshown⟩ := halike (perfmap i) (perfmap j) (hmaps i) (hmaps j)
  have hbeq : (Frames.ofUnresolved (perfmap i) es[i].item).sameStack
      (Frames.ofUnresolved (perfmap j) es[j].item) →
      Frames.ofUnresolved (perfmap i) es[i].item == Frames.ofUnresolved (perfmap j) es[j].item :=
    fun hsame => (Frames.beq_iff_stack _ _).mpr
      ⟨(Frames.sameStack_iff _ _).mp hsame, htime hsame⟩
  exact ⟨hbeq, fun hrecorded => hbeq (hshown hrecorded)⟩

/-- A report lists each stack once if and only if its entries are of one time. -/
theorem Recorded.listedOnce_entries {s : Recording F B} {es : List (Entry (UnresolvedFrames F))}
    (h : s.Recorded es) (maps : Set (ℕ → Option Symbol)) :
    s.ListedOnce maps ↔ OneTime maps es := by
  have hexact := h.counts.exact h.lt
  constructor
  · intro hlisted
    refine List.pairwise_map.mpr (List.pairwise_iff_getElem.mpr fun i j hi hj hij r r' hr hr' => ?_)
    -- a build that resolves the first entry of the two with `r`, the second with `r'`
    have hmaps : ∀ k, Drawn maps (if k = j then r' else r) := by
      intro k
      split
      · exact hr'
      · exact hr
    obtain ⟨report, hreport, hpairs, _, hrecorded⟩ :=
      hlisted ⟨none, ReportTiming.default⟩ rfl (fun k => if k = j then r' else r) hmaps
    obtain ⟨hbuild, _⟩ := h.build ⟨none, ReportTiming.default⟩ rfl fun k => if k = j then r' else r
    obtain rfl := Except.ok.inj (hbuild.symm.trans hreport)
    have hci := hexact.getElem?_keyed
      (ReportBuilder.framesKey ⟨none, ReportTiming.default⟩ fun k => if k = j then r' else r) hi
    have hcj := hexact.getElem?_keyed
      (ReportBuilder.framesKey ⟨none, ReportTiming.default⟩ fun k => if k = j then r' else r) hj
    rw [ReportBuilder.framesKey_eq rfl, if_neg (by omega)] at hci
    rw [ReportBuilder.framesKey_eq rfl, if_pos rfl] at hcj
    refine ⟨fun hsame => ?_, fun hsame => ?_⟩
    · obtain ⟨p, hp, hpi⟩ := exists_mem_collect (List.mem_of_getElem? hci)
      obtain ⟨q, hq, hqj⟩ := exists_mem_collect (List.mem_of_getElem? hcj)
      obtain ⟨hpstack, hptime⟩ := (Frames.beq_iff_stack _ _).mp hpi
      obtain ⟨hqstack, hqtime⟩ := (Frames.beq_iff_stack _ _).mp hqj
      have hstack := (Frames.sameStack_iff _ _).mp hsame
      have hsymm : Std.Symm fun p q : Frames × ℤ => ¬ p.1.sameStack q.1 :=
        ⟨fun _ _ => Frames.sameStack_symm⟩
      have hpq : p = q := by
        by_contra hne
        refine hpairs.forall hp hq hne ((Frames.sameStack_iff _ _).mpr ?_)
        rw [hpstack, hqstack, hstack]
      calc es[i].item.sampleTimestamp = p.1.sampleTimestamp := hptime.symm
        _ = q.1.sampleTimestamp := by rw [hpq]
        _ = es[j].item.sampleTimestamp := hqtime
    · rw [h.held] at hrecorded
      obtain ⟨hli, hgi⟩ := List.getElem?_eq_some_iff.mp hci
      obtain ⟨hlj, hgj⟩ := List.getElem?_eq_some_iff.mp hcj
      have hpair := List.pairwise_iff_getElem.mp hrecorded i j hli hlj hij
      rw [hgi, hgj] at hpair
      exact (Frames.sameStack_iff _ _).mpr ((Frames.beq_iff_stack _ _).mp (hpair hsame)).1
  · intro hone rb hnone perfmap hmaps
    obtain ⟨hbuild, _⟩ := h.build rb hnone perfmap
    have hkeyed := hone.keyed hexact hnone hmaps
    have hstack : ∀ c ∈ keyed (rb.framesKey perfmap) es, ∀ d ∈ keyed (rb.framesKey perfmap) es,
        c.1.sameStack d.1 → c.1 == d.1 := by
      have hsymm : Std.Symm fun c d : Frames × Entry (UnresolvedFrames F) =>
          c.1.sameStack d.1 → c.1 == d.1 := by
        refine ⟨fun c d hcd hdc => BEq.symm (hcd ?_)⟩
        rw [Frames.sameStack_iff] at hdc ⊢
        exact hdc.symm
      intro c hc d hd
      by_cases hne : c = d
      · rw [hne]
        exact fun _ => BEq.rfl
      · exact (hkeyed.imp And.left).forall hc hd hne
    refine ⟨_, hbuild, ?_, fun p hp => ?_, ?_⟩
    · refine (rb.report perfmap es).distinct.imp_of_mem fun {p q} hp hq hne hsame => ?_
      obtain ⟨c, hc, hcp⟩ := exists_mem_keyed hp
      obtain ⟨d, hd, hdq⟩ := exists_mem_keyed hq
      rw [← hcp, ← hdq] at hsame hne
      rw [hstack c hc d hd hsame] at hne
      cases hne
    · obtain ⟨c, hc, hcp⟩ := exists_mem_keyed hp
      rw [h.held]
      refine count_collect_eq_sumWhere hexact hp fun d hd => ?_
      rw [← hcp, Bool.eq_iff_iff]
      refine ⟨fun hsame => BEq.symm (hstack c hc d hd hsame), fun hbeq => ?_⟩
      exact (Frames.sameStack_iff _ _).mpr ((Frames.beq_iff_stack _ _).mp hbeq).1.symm
    · rw [h.held]
      exact hkeyed.imp And.right

variable [DefaultHasher]

/-- A sample that makes an entry is alike with the entries that are held. -/
def SameTime (maps : Set (ℕ → Option Symbol)) (s : Recording F B) (x : Sample F) : Prop :=
  (s.profiler.data.map.live x.frames).isNone → ∀ e ∈ s.held, Alike maps x.frames e.item

/-- One sample leaves each stack listed once exactly if it is taken at the time
of its entries. -/
theorem listedOnce_step (maps : Set (ℕ → Option Symbol)) (s : Recording F B) (x : Sample F)
    (h : ∃ es, s.Recorded es) (hfits : s.Fits x) :
    ∃ s', step s x = some s' ∧ (∃ es, s'.Recorded es) ∧
      (s.ListedOnce maps → (s'.ListedOnce maps ↔ s.SameTime maps x)) := by
  obtain ⟨es, hes⟩ := h
  obtain ⟨s', es', hstep, _, hes', hhit, hmiss⟩ := hes.sample hfits
  refine ⟨s', hstep, ⟨es', hes'⟩, fun hlisted => ?_⟩
  have hone := (hes.listedOnce_entries maps).mp hlisted
  have hsymm : ∀ {u v : UnresolvedFrames F}, Alike maps u v → Alike maps v u := Alike.symm
  rw [hes'.listedOnce_entries, SameTime, hes.held, OneTime]
  cases hlive : s.profiler.data.map.live x.frames with
  | some e =>
    -- no entry is made, and those there are keep their stacks
    obtain ⟨_, rest, hbefore, hafter⟩ := hhit e hlive
    have hitems : es'.map Entry.item ~ es.map Entry.item :=
      (hafter.map Entry.item).trans (hbefore.map Entry.item).symm
    rw [hitems.pairwise_iff hsymm]
    exact ⟨fun _ hnone => absurd hnone Bool.false_ne_true, fun _ => hone⟩
  | none =>
    rw [((hmiss hlive).map Entry.item).pairwise_iff hsymm, List.map_cons, List.pairwise_cons,
      List.forall_mem_map]
    exact ⟨fun hnew _ => hnew.1, fun hnew => ⟨hnew rfl, hone⟩⟩

/-- **Each stack once.**  Whichever of the maps the frames are resolved with, the
reports of a recording list every stack once, after each sample, if and only if
every sample that makes an entry is alike with the entries that are held: those
shown alike were taken at one time, and those recorded alike are shown alike. -/
theorem listedOnce_iff (maps : Set (ℕ → Option Symbol)) {s₀ : Recording F B} (hfresh : s₀.Fresh)
    {xs : List (Sample F)} (hlt : (xs.length : ℤ) < 2 ^ 63) :
    (∀ ys, ys <+: xs → ∀ s, run step s₀ ys = some s → s.ListedOnce maps) ↔
      Along step (SameTime maps) s₀ xs := by
  refine holds_throughout_iff (listedOnce_step maps) ⟨[], hfresh.recorded⟩ ?_
    (hfresh.along_fits hlt)
  rw [hfresh.recorded.listedOnce_entries]
  exact List.Pairwise.nil

omit [Target] [DefaultHasher] in
/-- With one map, stacks are alike unless they are shown alike and were recorded
at different times. -/
theorem alike_singleton {m : ℕ → Option Symbol} {u v : UnresolvedFrames F}
    (h : (Frames.ofUnresolved (fun _ => m) u).sameStack (Frames.ofUnresolved (fun _ => m) v) →
      u.sampleTimestamp = v.sampleTimestamp) : Alike {m} u v := by
  have hdrawn : ∀ r, Drawn {m} r → r = fun _ => m := fun r hr => funext fun n => hr n
  intro r r' hr hr'
  rw [hdrawn r hr, hdrawn r' hr']
  refine ⟨h, fun ⟨hframes, hname, hid⟩ => ?_⟩
  rw [Frames.sameStack_iff, Frames.stack, Frames.stack, Frames.ofUnresolved, Frames.ofUnresolved,
    hframes, hname, hid]

end Recording

end Pprof

/-! ### Five functions of one bucket -/

namespace Pprof.Functions

/-- The address of a function, which is named by its hexadecimal digits. -/
structure Function where
  address : ℕ
  deriving DecidableEq

scoped instance : Frame Function where
  ip f := f.address
  symbolAddress f := f.address
  resolveSymbol f :=
    [⟨some ((Nat.toDigits 16 f.address).map fun c => UInt8.ofNat c.toNat), none, none, none⟩]

scoped instance : Target := Target.linux
scoped instance : DefaultHasher := DefaultHasher.sip
scoped instance : Demangle := ⟨id⟩

/-- The entries of the collector in such runs. -/
abbrev Item := Entry (UnresolvedFrames Function)

scoped instance : PlainLayout Item Item := PlainLayout.cell Item

def newRecording : Recording Function Item := ⟨(Profiler.new true).toOption.get rfl, []⟩

/-- A sample in this function, at this time. -/
def sampleAt (address : ℕ) (time : SystemTime) : Sample Function :=
  ⟨.new [⟨address⟩] Given.threadName 0x7FFFF7D8A740 time, 1⟩

/-- Five functions whose stacks fall into one bucket, sampled one after the
other; the fifth evicts the first. -/
def fiveFunctions : List (Sample Function) :=
  [sampleAt 0x4028B0 1, sampleAt 0x4035B0 2, sampleAt 0x4047B0 3, sampleAt 0x406A50 4,
    sampleAt 0x4076D0 5]

/-- How many keys of its report have the stack of the sample. -/
def keysOf (x : Sample Function) (s : Recording Function Item) : Option ℕ :=
  (Given.builder.build Io.ok (fun _ _ _ => none) (.ok s.profiler)).1.toOption.map fun report =>
    (report.data.filter fun p =>
      p.1.sameStack (Frames.ofUnresolved (fun _ _ => none) x.frames)).length

/-- No just-in-time symbols are known at any time. -/
def noMap : Set (ℕ → Option Symbol) := {fun _ => none}

end Pprof.Functions

namespace Pprof.Recording

open Functions

/-- The second function is sampled again: it is still in the bucket. -/
theorem listedOnce_again :
    ∃ s : Recording Function Item,
      run step newRecording (fiveFunctions ++ [sampleAt 0x4035B0 6]) = some s ∧
      s.ListedOnce noMap := by
  have hfresh : newRecording.Fresh := ⟨rfl, rfl⟩
  have hlt : ((fiveFunctions ++ [sampleAt 0x4035B0 6]).length : ℤ) < 2 ^ 63 := by decide
  have htimes : Along step (fun s x => (s.profiler.data.map.live x.frames).isNone →
      ∀ e ∈ s.held, (Frames.ofUnresolved (fun _ _ => none) x.frames).sameStack
        (Frames.ofUnresolved (fun _ _ => none) e.item) →
          x.frames.sampleTimestamp = e.item.sampleTimestamp)
      newRecording (fiveFunctions ++ [sampleAt 0x4035B0 6]) := by decide +kernel
  have hsame : Along step (SameTime noMap) newRecording (fiveFunctions ++ [sampleAt 0x4035B0 6]) :=
    along_mono (fun s x h hnone e he => alike_singleton (h hnone e he)) htimes
  obtain ⟨s, hrun⟩ := exists_run newRecording (fiveFunctions ++ [sampleAt 0x4035B0 6])
  exact ⟨s, hrun, (listedOnce_iff noMap hfresh hlt).mpr hsame _ List.prefix_rfl s hrun⟩

/-- The first function is sampled again: it was evicted, and is listed twice. -/
theorem not_listedOnce_evicted :
    ∃ s : Recording Function Item, newRecording.Fresh ∧
      run step newRecording (fiveFunctions ++ [sampleAt 0x4028B0 6]) = some s ∧
      keysOf (sampleAt 0x4028B0 6) s = some 2 ∧ ¬ s.ListedOnce noMap := by
  have hfresh : newRecording.Fresh := ⟨rfl, rfl⟩
  have hboth : (run step newRecording (fiveFunctions ++ [sampleAt 0x4028B0 6])).map (fun s =>
      (keysOf (sampleAt 0x4028B0 6) s, decide ((s.held.map Entry.item).Pairwise fun u v =>
        (Frames.ofUnresolved (fun _ _ => none) u).sameStack
          (Frames.ofUnresolved (fun _ _ => none) v) → u.sampleTimestamp = v.sampleTimestamp)))
        = some (some 2, false) := by decide +kernel
  have hlt : ((fiveFunctions ++ [sampleAt 0x4028B0 6]).length : ℤ) < 2 ^ 63 := by decide
  obtain ⟨s, hrun⟩ := exists_run newRecording (fiveFunctions ++ [sampleAt 0x4028B0 6])
  obtain ⟨es, hes⟩ := recorded_of_run hfresh hlt hrun
  rw [hrun] at hboth
  obtain ⟨hkeys, htimes⟩ := Prod.mk.inj (Option.some.inj hboth)
  refine ⟨s, hfresh, hrun, hkeys, fun hlisted => of_decide_eq_false htimes ?_⟩
  have hone : OneTime noMap s.held := by
    rw [hes.held]
    exact (hes.listedOnce_entries noMap).mp hlisted
  exact hone.imp fun halike => (halike _ _ (fun _ => rfl) (fun _ => rfl)).1

end Pprof.Recording
