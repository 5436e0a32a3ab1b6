/-
Profiles that are uploaded periodically.

An agent that profiles a process for ever builds a report that clears, encodes
it as a profile, uploads it, and does so again.  Read back and added up, stack
by stack, the profiles say how often each stack was sampled: nothing is lost on
the way from the handler through the hash counter, the overflow file, the hash
map of the report and the tables of the profile, in whatever order the maps are
iterated.

* `Report.Encodes.countShown` — a profile counts what its report counts;
* `sample_complete_or_lags`, `counts_of_tryIter` — whatever writes fail, entries
  that are read count the samples;
* `State.uploads_add_up` — the profiles of a whole run.
-/
import Pprof.Agreement
import Pprof.Canonical
import Pprof.ListedOnce

open ByteFile Transition Weight

namespace Pprof

/-- A stack as a reader of a profile sees it: the thread, and the names. -/
abbrev Shown := String × List String

/-- The sum of the counts of the samples that are read back as this stack. -/
def Protos.Profile.countShown (p : Protos.Profile) (stack : Shown) : ℤ :=
  sumWhere (fun x => (x.1, x.2.1)) (fun x => x.2.2) (fun shown => shown == stack)
    (p.sample.filterMap p.resolve)

variable [Demangle]

/-- How a resolved stack is shown. -/
def Frames.shown (f : Frames) : Shown :=
  (f.threadNameOrId, f.frames.flatten.map Symbol.demangledName)

theorem Frames.shown_congr {f g : Frames} (h : f == g) : f.shown = g.shown := by
  obtain ⟨hframes, hname, hid, _⟩ : f.frames.map (fun symbols => symbols.map Symbol.rawName)
      = g.frames.map (fun symbols => symbols.map Symbol.rawName) ∧ f.threadName = g.threadName ∧
        f.threadId = g.threadId ∧ _ := by
    simpa only [Frames.key, Prod.mk.injEq] using (Frames.beq_iff f g).mp h
  have hraw : f.frames.flatten.map Symbol.rawName = g.frames.flatten.map Symbol.rawName := by
    rw [List.map_flatten, List.map_flatten, hframes]
  have hnames : ∀ symbols : List Symbol, symbols.map Symbol.demangledName
      = (symbols.map Symbol.rawName).map fun name => Demangle.demangle (fromUtf8Lossy name) := by
    intro symbols
    rw [List.map_map]
    rfl
  rw [Frames.shown, Frames.shown, Frames.threadNameOrId, Frames.threadNameOrId, hname, hid,
    hnames, hraw, ← hnames]

namespace Report

open Protobuf

/-- The profile is what `pprof` may return for the report, in any iteration
order of the map and of the strings. -/
def Encodes (r : Report) (p : Protos.Profile) : Prop :=
  ∃ (q : Report) (order : StringOrder q), q.data.Perm r.data ∧ q.timing = r.timing ∧
    q.pprof order = some p

/-- The sum of the counts of the entries that are shown as this stack. -/
def countShown (r : Report) (stack : Shown) : ℤ :=
  sumWhere Prod.fst Prod.snd (fun f : Frames => f.shown == stack) r.data

/-- The samples of a profile are read back as the entries of its report. -/
theorem filterMap_resolve {q : Report} (order : StringOrder q) :
    (q.profile order).sample.filterMap (q.profile order).resolve = q.data.map stack := by
  have hresolve : (q.profile order).sample.map (q.profile order).resolve
      = (q.data.map stack).map some := by
    show (q.data.map _).map _ = _
    rw [List.map_map, List.map_map]
    exact List.map_congr_left fun entry he => resolve_sampleOf order he
  have hid : (q.profile order).sample.filterMap (q.profile order).resolve
      = ((q.profile order).sample.map (q.profile order).resolve).filterMap id := by
    rw [List.filterMap_map]
    rfl
  rw [hid, hresolve, List.filterMap_map]
  exact List.filterMap_some

/-- A profile counts each stack as its report does. -/
theorem Encodes.countShown {r : Report} {p : Protos.Profile} (h : r.Encodes p) (stack : Shown) :
    p.countShown stack = r.countShown stack := by
  obtain ⟨q, order, hperm, _, hp⟩ := h
  rw [pprof_eq_of_divides order (divides_of_pprof hp)] at hp
  obtain rfl := Option.some.inj hp
  have hdata : r.countShown stack = q.countShown stack := (sumWhere_perm hperm).symm
  rw [hdata, Protos.Profile.countShown, filterMap_resolve, Report.countShown, sumWhere, sumWhere,
    List.filter_map, List.map_map]
  rfl

end Report

variable {F B : Type*} [Frame F] [Target] [PlainLayout (Entry (UnresolvedFrames F)) B]

namespace State

/-- The number of stacks that are shown as this one. -/
def timesShown (shown : UnresolvedFrames F → Shown) (stack : Shown)
    (us : List (UnresolvedFrames F)) : ℤ :=
  (us.filter fun u => shown u == stack).length

/-- The samples that a `stop` throws away. -/
def discarded (s : State F B) : Event F → List (UnresolvedFrames F)
  | .dropStop sigOk tempfile =>
    match s.holder with
    | .stopping _ => if s.running && sigOk && tempfile then s.window.map Sample.frames else []
    | _ => []
  | _ => []

/-- The recorded stacks are resolved so that they are shown as `shown` says, and
those that are equal are shown alike: no thread was renamed. -/
def ShownAs (shown : UnresolvedFrames F → Shown) (perfmap : ℕ → ℕ → ℕ → Option Symbol)
    (us : List (UnresolvedFrames F)) : Prop :=
  (∀ u ∈ us, ∀ i, (Frames.ofUnresolved (perfmap i) u).shown = shown u) ∧
    ∀ u ∈ us, ∀ v ∈ us, u == v → shown u = shown v

/-- A report that clears has no post processor, and shows the window so. -/
def ShowsAs (shown : UnresolvedFrames F → Shown) (s : State F B) : Event F → Prop
  | .report rb _ perfmap true => rb.framesPostProcessor = none ∧
    ShownAs shown perfmap (s.window.map Sample.frames)
  | _ => True

/-- The entries of the collector are of stacks of the window, which are not only
equal to them. -/
def Genuine (s : State F B) : Prop :=
  ∀ p, s.profiler = .ok p → ∀ items, p.data.tryIter Io.ok = .ok items →
    ∀ e ∈ items, e.item ∈ s.window.map Sample.frames

omit [Target] [PlainLayout (Entry (UnresolvedFrames F)) B] [Demangle] [Frame F] in
theorem timesShown_append (shown : UnresolvedFrames F → Shown) (stack : Shown)
    (us vs : List (UnresolvedFrames F)) :
    timesShown shown stack (us ++ vs) = timesShown shown stack us + timesShown shown stack vs := by
  rw [timesShown, timesShown, timesShown, List.filter_append, List.length_append, Nat.cast_add]

end State

/-- In a report of the entries that count the samples, what is shown so that `P`
holds counts the samples that are. -/
theorem Counts.sumShown {p : Profiler F B} {window : List (Sample F)}
    {items : List (Entry (UnresolvedFrames F))} (h : Counts p window items)
    (hlt : (window.length : ℤ) < 2 ^ 63)
    (hmem : ∀ e ∈ items, e.item ∈ window.map Sample.frames) {rb : ReportBuilder}
    (hnone : rb.framesPostProcessor = none) {perfmap : ℕ → ℕ → ℕ → Option Symbol}
    {shown : UnresolvedFrames F → Shown}
    (hshown : State.ShownAs shown perfmap (window.map Sample.frames)) (P : Shown → Bool) :
    sumWhere Prod.fst Prod.snd (fun f : Frames => P f.shown) (rb.report perfmap items).data
      = ((window.map Sample.frames).filter fun u => P (shown u)).length := by
  obtain ⟨hresolved, halike⟩ := hshown
  -- the entries of a report that show alike hold the items that do
  have hcollect : sumWhere Prod.fst Prod.snd (fun f : Frames => P f.shown)
      (rb.report perfmap items).data
      = sumWhere Entry.item Entry.count (fun u => P (shown u)) items := by
    refine sumWhere_collect (h.exact hlt) _ (fun f g hfg => ?_) fun e he i => ?_
    · rw [Frames.shown_congr hfg]
    · rw [ReportBuilder.framesKey_eq hnone, hresolved e.item (hmem e he)]
  -- and items of one class are shown alike, so the window can be counted instead
  have hitems : ∀ x ∈ window.map Sample.entry, x.item ∈ window.map Sample.frames := by
    intro x hx
    obtain ⟨sample, hsample, rfl⟩ := List.mem_map.mp hx
    exact List.mem_map_of_mem hsample
  rw [hcollect, sumWhere_eq_of_weight_eq_on (fun e he => ?_) (fun x hx y hy hxy => ?_) h.count,
    sumWhere_entry]
  · obtain ⟨sample, hsample, hframes⟩ := List.mem_map.mp (hmem e he)
    exact ⟨sample.entry, List.mem_map_of_mem hsample, hframes⟩
  · rw [halike x.item (hitems x hx) y.item (hitems y hy) hxy]

omit [Demangle] in
/-- A sample keeps the entries those of stacks that were sampled. -/
theorem Counts.sample_mem [DefaultHasher] {p : Profiler F B} {window : List (Sample F)}
    {es : List (Entry (UnresolvedFrames F))} (h : Counts p window es)
    (hlt : (window.length : ℤ) + 1 < 2 ^ 63)
    (hmem : ∀ e ∈ es, e.item ∈ window.map Sample.frames) (x : Sample F) :
    ∃ es', Counts (p.sample Io.ok x.frames) (x :: window) es' ∧
      ∀ e ∈ es', e.item ∈ (x :: window).map Sample.frames := by
  obtain ⟨es', hes', hhit, hmiss⟩ := h.sample hlt x
  refine ⟨es', hes', fun e he => ?_⟩
  rw [List.map_cons]
  cases hlive : p.data.map.live x.frames with
  | some live =>
    obtain ⟨_, rest, hbefore, hafter⟩ := hhit live hlive
    obtain rfl | he := List.mem_cons.mp (hafter.mem_iff.mp he)
    · exact List.mem_cons_of_mem _ (hmem live (hbefore.mem_iff.mpr List.mem_cons_self))
    · exact List.mem_cons_of_mem _ (hmem e (hbefore.mem_iff.mpr (List.mem_cons_of_mem _ he)))
  | none =>
    obtain rfl | he := List.mem_cons.mp ((hmiss hlive).mem_iff.mp he)
    · exact List.mem_cons_self
    · exact List.mem_cons_of_mem _ (hmem e he)

/-! ### What the collector holds -/

/-- The collector holds the samples of the window. -/
def Complete (p : Profiler F B) (window : List (Sample F)) : Prop :=
  ∃ es, Counts p window es ∧ ∀ e ∈ es, e.item ∈ window.map Sample.frames

/-- The overflow file is too short to be read. -/
def Lags (p : Profiler F B) : Prop :=
  p.data.tempArray.file.AtEnd ∧ p.data.tempArray.file.contents.length < p.data.tempArray.needed

omit [Demangle] in
theorem Complete.congr {p p' : Profiler F B} {window : List (Sample F)} (h : Complete p window)
    (hdata : p'.data = p.data) : Complete p' window := by
  obtain ⟨es, hes, hmem⟩ := h
  exact ⟨es, ⟨hdata ▸ hes.holds, hes.pos, hes.count⟩, hmem⟩

omit [Demangle] in
theorem complete_nil {p : Profiler F B} (h : p.data.Holds []) : Complete p [] :=
  ⟨[], .nil h, fun _ he => absurd he List.not_mem_nil⟩

omit [Demangle] [Frame F] in
theorem Lags.error {p : Profiler F B} (h : Lags p) (io : Io) :
    ∃ err, p.data.tryIter io = .error err := by
  cases hread : p.data.tryIter io with
  | error err => exact ⟨err, rfl⟩
  | ok es =>
    have hlength := (Collector.tryIter_eq_ok.mp hread).2.1
    have hlt := h.2
    omega

omit [Demangle] in
/-- Entries that are read are those of the samples. -/
theorem counts_of_tryIter {p : Profiler F B} {window : List (Sample F)}
    (h : Complete p window ∨ Lags p) {io : Io} {es : List (Entry (UnresolvedFrames F))}
    (hread : p.data.tryIter io = .ok es) :
    Counts p window es ∧ ∀ e ∈ es, e.item ∈ window.map Sample.frames := by
  obtain ⟨es', hes', hmem⟩ | hlags := h
  · have hreads := (Collector.tryIter_eq_ok.mp hread).1
    obtain rfl := Except.ok.inj ((hes'.holds.tryIter hreads).symm.trans hread)
    exact ⟨hes', hmem⟩
  · obtain ⟨err, herr⟩ := hlags.error io
    rw [herr] at hread
    cases hread

omit [Demangle] in
/-- A sample whose write fails makes the file too short, for ever; any other is
held. -/
theorem sample_complete_or_lags [DefaultHasher] {p : Profiler F B} {window : List (Sample F)}
    (h : Complete p window ∨ Lags p) (hlt : (window.length : ℤ) + 1 < 2 ^ 63) (io : Io)
    (x : Sample F) :
    Complete (p.sample io x.frames) (x :: window) ∨ Lags (p.sample io x.frames) := by
  obtain ⟨es, hes, hmem⟩ | hlags := h
  · have hend : p.data.tempArray.file.AtEnd ∧
        p.data.tempArray.needed = p.data.tempArray.file.contents.length := by
      obtain ⟨_, fl, hstores, _⟩ := hes.holds
      exact ⟨hstores.atEnd, hstores.needed⟩
    cases hfails : p.data.writeFails io x.frames 1 with
    | false =>
      -- as on a disk that does not fail
      have hsame : (p.sample io x.frames).data = (p.sample Io.ok x.frames).data := by
        rw [Profiler.sample_data, Profiler.sample_data, Collector.add_eq_ok hfails]
      obtain ⟨es', hes', hmem'⟩ := hes.sample_mem hlt hmem x
      exact .inl (Complete.congr ⟨es', hes', hmem'⟩ hsame)
    | true =>
      -- the flush is counted, but the file has not got all of its entries
      obtain ⟨hend', _, hmore⟩ := Collector.add_lag hend.1 io x.frames 1
      have hmore := hmore hfails
      have hneeded := hend.2
      refine .inr ⟨hend', ?_⟩
      rw [Profiler.sample_data]
      omega
  · obtain ⟨hend', hsame, hmore⟩ := Collector.add_lag hlags.1 io x.frames 1
    have hlt := hlags.2
    refine .inr ⟨hend', ?_⟩
    rw [Profiler.sample_data]
    cases hfails : p.data.writeFails io x.frames 1 with
    | false =>
      have hsame := hsame hfails
      omega
    | true =>
      have hmore := hmore hfails
      omega

omit [Demangle] in
/-- The handler, where it has the lock. -/
theorem handler_complete_or_lags [DefaultHasher] {p : Profiler F B}
    {window window' : List (Sample F)}
    (h : Complete p window ∨ Lags p) (hlt : (window.length : ℤ) + 1 < 2 ^ 63) (io : Io)
    (i : Interrupt F) (session : ℕ)
    (hwindow : window' = (p.recorded i).toList.map (fun frames => ⟨frames, session⟩) ++ window) :
    (window'.length : ℤ) < 2 ^ 63 ∧
      (Complete (p.perfSignalHandler io i) window' ∨ Lags (p.perfSignalHandler io i)) := by
  subst hwindow
  rw [Profiler.perfSignalHandler]
  cases hrec : p.recorded i with
  | none =>
    refine ⟨?_, h⟩
    show (window.length : ℤ) < 2 ^ 63
    omega
  | some frames =>
    refine ⟨?_, sample_complete_or_lags h hlt io ⟨frames, session⟩⟩
    show ((window.length + 1 : ℕ) : ℤ) < 2 ^ 63
    omega

namespace State

variable [DefaultHasher]

omit [Demangle] [DefaultHasher] [Frame F] in
theorem Genuine.same {s s' : State F B} (hs : Genuine s) {p p' : Profiler F B}
    (hp : s.profiler = .ok p) (hp' : s'.profiler = .ok p') (hdata : p'.data = p.data)
    (hwindow : s'.window = s.window) : Genuine s' := by
  intro q hq items hread
  obtain rfl := Except.ok.inj (hp'.symm.trans hq)
  rw [hwindow]
  exact hs p hp items (hdata ▸ hread)

omit [Demangle] [DefaultHasher] in
theorem Genuine.empty {s : State F B} {p : Profiler F B} (hp : s.profiler = .ok p)
    (hempty : p.data.Holds []) : Genuine s := by
  intro q hq items hread e he
  obtain rfl := Except.ok.inj (hp.symm.trans hq)
  obtain rfl := Except.ok.inj ((hempty.tryIter rfl).symm.trans hread)
  exact absurd he List.not_mem_nil

omit [Demangle] [DefaultHasher] in
theorem Init.genuine {s : State F B} (h : Init s) : Genuine s := by
  intro p hp
  obtain ⟨tempfile, hnew⟩ := h.profiler
  obtain ⟨data, hdata, rfl⟩ := Profiler.new_eq_ok (hnew.symm.trans hp)
  exact Genuine.empty hp (Collector.holds_of_new hdata) _ hp

/-- A clean step records the stack itself, and no other. -/
theorem Genuine.step {s s' : State F B} {e : Event F} (hs : Genuine s) (htracked : Tracked s)
    (hclean : Clean s e) (h : s.step e = some s') : Genuine s' := by
  cases Step.of_step h with
  | refused hholder hp => exact hs.same hp rfl rfl rfl
  | started hholder hp => exact hs.same hp rfl rfl rfl
  | stopFailed hholder hp => exact hs.same hp rfl rfl rfl
  | stopped hholder hp hrun hdata => exact Genuine.empty rfl (Collector.holds_of_new hdata)
  | delivered =>
    rw [Genuine, deliver_profiler, deliver_window]
    exact hs
  | @handled v p io interrupt hholder hp =>
    obtain ⟨rfl, hfits⟩ := hclean
    obtain ⟨hcounter, hlt, es, hes⟩ := htracked p hp
    have hmax : (s.window.length : ℤ) + 1 < 2 ^ 31 := hcounter ▸ (hfits p hp).2
    intro q hq items hread e he
    obtain rfl := Except.ok.inj hq
    rw [Profiler.perfSignalHandler] at hread
    cases hrec : p.recorded interrupt with
    | none =>
      rw [hrec] at hread
      exact hs p hp items hread e he
    | some frames =>
      rw [hrec] at hread
      -- the entries after the sample are those before it, and the stack
      obtain ⟨es', hes', hmem⟩ := hes.sample_mem (by omega) (hs p hp es (hes.holds.tryIter rfl))
        ⟨frames, v.session⟩
      obtain rfl := Except.ok.inj ((hes'.holds.tryIter rfl).symm.trans hread)
      exact hmem e he
  | @reported rb io perfmap clear hholder =>
    obtain rfl : io = Io.ok := hclean
    cases hp : s.profiler with
    | error err =>
      intro q hq
      cases hq
    | ok p =>
      obtain ⟨items, hitems, _, ⟨rfl, _, hbuild⟩ | ⟨rfl, _, hbuild⟩ | ⟨rfl, hbuild⟩⟩ :=
        htracked.buildAndClear_cases hp rb perfmap clear
      · rw [hbuild]
        -- a clear leaves nothing
        exact Genuine.empty rfl (Collector.clear_holds p.data Io.ok rfl).2
      · rw [hbuild]
        exact hs.same hp rfl rfl rfl
      · rw [hbuild]
        exact hs.same hp rfl rfl rfl
  | _ => exact hs

/-- What a clean step takes in, hands out and throws away. -/
theorem shown_conserved {shown : UnresolvedFrames F → Shown} (stack : Shown) {s s' : State F B}
    {e : Event F} (hs : Tracked s) (hgenuine : Genuine s) (hclean : Clean s e)
    (hshows : ShowsAs shown s e) (h : s.step e = some s') :
    timesShown shown stack (s'.window.map Sample.frames)
        + (((returned s e).map fun r => r.countShown stack).sum
          + timesShown shown stack (discarded s e))
      = timesShown shown stack (s.window.map Sample.frames)
        + timesShown shown stack (samples s e) := by
  have hquiet : ∀ {window : List (Sample F)}, window = s.window → returned s e = [] →
      discarded s e = [] → samples s e = [] →
      timesShown shown stack (window.map Sample.frames)
          + (((returned s e).map fun r => r.countShown stack).sum
            + timesShown shown stack (discarded s e))
        = timesShown shown stack (s.window.map Sample.frames)
          + timesShown shown stack (samples s e) := by
    intro window hwindow hreturned hdiscarded hsamples
    rw [hwindow, hreturned, hdiscarded, hsamples]
    rfl
  cases Step.of_step h with
  | moved h' he hquiet' hold =>
    cases e with
    | handle io i => cases he
    | report rb io perfmap clear => cases he
    | dropStop sigOk tempfile => cases he
    | _ => exact hquiet rfl rfl rfl rfl
  | @stopRefused g sigOk tempfile hholder hrun =>
    refine hquiet rfl rfl ?_ rfl
    simp only [discarded, hholder, hrun, Bool.false_and, Bool.false_eq_true, if_false]
  | @stopFailed g p counter action sigOk tempfile hholder hp hrun hcause =>
    refine hquiet rfl rfl ?_ rfl
    obtain ⟨rfl, _⟩ | ⟨_, rfl, _⟩ := hcause
    · simp only [discarded, hholder, Bool.and_false, Bool.false_and, Bool.false_eq_true, if_false]
    · simp only [discarded, hholder, Bool.and_false, Bool.false_eq_true, if_false]
  | stopped hholder hp hrun =>
    -- the window is thrown away
    have hdiscarded : discarded s (.dropStop true true) = s.window.map Sample.frames := by
      simp only [discarded, hholder, running_ok hp, hrun, Bool.and_self, if_true]
    rw [hdiscarded]
    show (0 : ℤ) + (0 + timesShown shown stack (s.window.map Sample.frames)) = _ + 0
    omega
  | delivered => exact hquiet (deliver_window s) rfl rfl rfl
  | @handled v p io interrupt hholder hp =>
    have hsamples : samples s (.handle io interrupt) = (p.recorded interrupt).toList := by
      rw [samples, hholder, hp]
    have hwindow : ((p.recorded interrupt).toList.map
        (fun frames => (⟨frames, v.session⟩ : Sample F)) ++ s.window).map Sample.frames
          = (p.recorded interrupt).toList ++ s.window.map Sample.frames := by
      rw [List.map_append, List.map_map]
      exact congrArg (· ++ _) (List.map_id _)
    show timesShown shown stack (List.map Sample.frames (_ ++ _)) + (0 + 0) = _
    rw [hsamples, hwindow, timesShown_append]
    omega
  | @handledNone v err io interrupt hholder hp =>
    refine hquiet rfl rfl rfl ?_
    rw [samples, hholder, hp]
  | @reported rb io perfmap clear hholder =>
    obtain rfl : io = Io.ok := hclean
    cases clear with
    | false => exact hquiet rfl rfl rfl rfl
    | true =>
      cases hp : s.profiler with
      | error err =>
        refine hquiet rfl ?_ rfl rfl
        rw [returned, if_pos hholder, hp]
        rfl
      | ok p =>
        obtain ⟨items, hitems, hread, ⟨_, _, hbuild⟩ | ⟨_, _, hbuild⟩ | ⟨hc, _⟩⟩ :=
          hs.buildAndClear_cases hp rb perfmap true
        · -- the window is handed out
          have hreturned : returned s (.report rb Io.ok perfmap true)
              = [rb.report perfmap items] := by
            rw [returned, if_pos hholder, hp, hbuild]
            rfl
          have hcount : (rb.report perfmap items).countShown stack
              = timesShown shown stack (s.window.map Sample.frames) :=
            hitems.sumShown (hs.lt hp) (hgenuine p hp items hread) hshows.1 hshows.2
              fun shown => shown == stack
          rw [hreturned, List.map_singleton, List.sum_singleton, hcount, hbuild]
          show (0 : ℤ) + (_ + 0) = _ + 0
          omega
        · refine hquiet ?_ ?_ rfl rfl
          · simp [hbuild, Except.isOk, Except.toBool]
          · rw [returned, if_pos hholder, hp, hbuild]
            rfl
        · cases hc
  | _ => exact hquiet rfl rfl rfl rfl

omit [Target] [PlainLayout (Entry (UnresolvedFrames F)) B] [Demangle] [Frame F] [DefaultHasher] in
theorem sum_timesShown {ε : Type*} {σ : Type*} {step : σ → ε → Option σ}
    (f : σ → ε → List (UnresolvedFrames F)) (shown : UnresolvedFrames F → Shown) (stack : Shown)
    (s : σ) (es : List ε) :
    (trace step (fun s e => [timesShown shown stack (f s e)]) s es).sum
      = timesShown shown stack (trace step f s es) := by
  induction es generalizing s with
  | nil => rfl
  | cons e es ih =>
    rw [trace, trace, timesShown_append, List.sum_append, List.sum_singleton]
    cases step s e with
    | none => rfl
    | some s' => rw [Option.elim_some, Option.elim_some, ih]

omit [PlainLayout (Entry (UnresolvedFrames F)) B] [Target] [Frame F] [DefaultHasher] in
theorem sum_encoded {reports : List Report} {profiles : List Protos.Profile}
    (h : List.Forall₂ Report.Encodes reports profiles) (stack : Shown) :
    (profiles.map fun p => p.countShown stack).sum
      = (reports.map fun r => r.countShown stack).sum := by
  induction h with
  | nil => rfl
  | cons hp _ ih => rw [List.map_cons, List.map_cons, List.sum_cons, List.sum_cons, ih,
      hp.countShown]

/-- **The uploaded profiles add up.**  In a process without failures and
overflow, where the profiles of the reports that clear are uploaded: for every
thread and list of names, the counts read back from the uploaded profiles, what
the profiler still holds and what a `stop` threw away are the samples of that
stack, whatever the iteration orders of the maps.  A profile of the report that
`build` returns now counts what the profiler holds. -/
theorem uploads_add_up {s₀ s : State F B} (hinit : Init s₀) {es : List (Event F)}
    (hrun : run step s₀ es = some s) (hclean : Along step Clean s₀ es)
    {shown : UnresolvedFrames F → Shown} (hshows : Along step (ShowsAs shown) s₀ es)
    {profiles : List Protos.Profile}
    (hprofiles : List.Forall₂ Report.Encodes (trace step returned s₀ es) profiles)
    (stack : Shown) :
    ((profiles.map fun p => p.countShown stack).sum
        + timesShown shown stack (s.window.map Sample.frames)
        + timesShown shown stack (trace step discarded s₀ es)
      = timesShown shown stack (trace step samples s₀ es)) ∧
    ∀ (p : Profiler F B) (rb : ReportBuilder) perfmap, s.profiler = .ok p →
      rb.framesPostProcessor = none → ShownAs shown perfmap (s.window.map Sample.frames) →
      ∃ now, rb.build Io.ok perfmap (.ok p) = (.ok now, .ok p) ∧ ∀ profile, now.Encodes profile →
        profile.countShown stack = timesShown shown stack (s.window.map Sample.frames) := by
  have hinv : ∀ (s : State F B) e s', Tracked s ∧ Genuine s → Clean s e ∧ ShowsAs shown s e →
      s.step e = some s' → Tracked s' ∧ Genuine s' := by
    intro s e s' hs he h
    exact ⟨hs.1.step he.1 h, hs.2.step hs.1 he.1 h⟩
  have halong := along_and hclean hshows
  constructor
  · have hmoves : ∀ (s : State F B) e s', Tracked s ∧ Genuine s → Clean s e ∧ ShowsAs shown s e →
        s.step e = some s' →
        timesShown shown stack (s'.window.map Sample.frames)
            + ((returned s e).map (fun r => r.countShown stack)
              ++ [timesShown shown stack (discarded s e)]).sum
          = timesShown shown stack (s.window.map Sample.frames)
            + [timesShown shown stack (samples s e)].sum := by
      intro s e s' hs he h
      rw [List.sum_append, List.sum_singleton, List.sum_singleton]
      exact shown_conserved stack hs.1 hs.2 he.1 he.2 h
    have htotal := run_conserves hinv hmoves ⟨hinit.tracked, hinit.genuine⟩ halong hrun
    -- the sums over the run, apart for what is returned and what is thrown away
    rw [sum_trace_append, trace_map, sum_timesShown, sum_timesShown, hinit.window] at htotal
    rw [sum_encoded hprofiles]
    change _ = 0 + _ at htotal
    omega
  · intro p rb perfmap hp hnone hshown
    obtain ⟨hs, hgenuine⟩ := run_invariant_along hinv ⟨hinit.tracked, hinit.genuine⟩ halong hrun
    obtain ⟨items, hitems, hread, hnow⟩ := hs.build hp rb perfmap
    refine ⟨_, hnow, fun profile hprofile => ?_⟩
    rw [hprofile.countShown]
    exact hitems.sumShown (hs.lt hp) (hgenuine p hp items hread) hnone hshown
      fun shown => shown == stack

end State

end Pprof

/-! ### A profile, and a sample after it -/

namespace Pprof.Functions

/-- The handler samples a stack of one function of the main thread. -/
def sampling (address : ℕ) : List (Event Function) :=
  [.expire, .deliver, .tryWrite 0,
    .handle Io.ok ⟨none, [⟨address⟩], Given.threadName, 0x7FFFF7D8A740, 0⟩, .unlock]

/-- Three samples of two functions, a report that clears, and one sample. -/
def uploading : List (Event Function) :=
  buildCall .default true ++ sampling 0x4028B0 ++ sampling 0x4035B0 ++ sampling 0x4028B0 ++
    [.reportLock, .report Given.builder Io.ok (fun _ _ _ => none) true, .unlock] ++
    sampling 0x4028B0

/-- How the functions are shown. -/
def shown (u : UnresolvedFrames Function) : Shown :=
  (Frames.ofUnresolved (fun _ _ => none) u).shown

/-- Reports without a post processor and without a perf map. -/
def Unprocessed (_ : State Function Item) : Event Function → Prop
  | .report rb _ perfmap _ => rb.framesPostProcessor = none ∧ perfmap = fun _ _ _ => none
  | _ => True

end Pprof.Functions

namespace Pprof.State

open Functions

/-- The profile and what is held count the three samples of the function. -/
theorem uploads_add_up_thrice :
    ∃ (s : State Function Item) (profile : Protos.Profile),
      run step (idle true) uploading = some s ∧
      List.Forall₂ Report.Encodes (trace step returned (idle true : State Function Item) uploading)
        [profile] ∧
      profile.countShown ("main", ["4028b0"])
        + timesShown shown ("main", ["4028b0"]) (s.window.map Sample.frames) = 3 := by
  have hsome : (run step (idle true : State Function Item) uploading).isSome := by decide +kernel
  obtain ⟨s, hrun⟩ := Option.isSome_iff_exists.mp hsome
  have hone : (trace step returned (idle true : State Function Item) uploading).length = 1 := by
    decide +kernel
  obtain ⟨report, hreport⟩ := List.length_eq_one_iff.mp hone
  have hfrequency : ∀ r ∈ trace step returned (idle true : State Function Item) uploading,
      0 < r.timing.frequency := by decide +kernel
  rw [hreport, List.forall_mem_singleton] at hfrequency
  have hprofiles : List.Forall₂ Report.Encodes
      (trace step returned (idle true : State Function Item) uploading)
      [report.profile (.last report)] := by
    rw [hreport]
    exact .cons ⟨report, .last report, .refl _, rfl, Report.pprof_eq _ hfrequency⟩ .nil
  have hclean : Along step Clean (idle true : State Function Item) uploading := by decide +kernel
  -- the conditions: nothing fails, no post processor, equal stacks shown alike
  have hplain : ∀ e ∈ uploading, ∀ s, Unprocessed s e := by
    simp [uploading, sampling, buildCall, Unprocessed, Given.builder]
  have halike : Along step (fun s _ => ∀ u ∈ s.window.map Sample.frames,
      ∀ v ∈ s.window.map Sample.frames, u == v → shown u = shown v)
      (idle true : State Function Item) uploading := by decide +kernel
  have hshows : Along step (ShowsAs shown) (idle true : State Function Item) uploading := by
    refine along_mono (fun s e h => ?_) (along_and (along_of_forall hplain _) halike)
    cases e with
    | report rb io perfmap clear =>
      obtain ⟨⟨hnone, rfl⟩, halike⟩ := h
      cases clear with
      | false => trivial
      | true => exact ⟨hnone, fun _ _ _ => rfl, halike⟩
    | _ => trivial
  -- three samples were taken and none thrown away
  have htotal := (uploads_add_up (idle_init true) hrun hclean hshows hprofiles
    ("main", ["4028b0"])).1
  have hsampled : timesShown shown ("main", ["4028b0"])
      (trace step samples (idle true : State Function Item) uploading) = 3 := by decide +kernel
  have hdiscarded : timesShown shown ("main", ["4028b0"])
      (trace step discarded (idle true : State Function Item) uploading) = 0 := by decide +kernel
  rw [hsampled, hdiscarded, List.map_singleton, List.sum_singleton, add_zero] at htotal
  exact ⟨s, _, hrun, hprofiles, htotal⟩

end Pprof.State
