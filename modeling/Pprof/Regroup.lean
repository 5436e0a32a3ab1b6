/-
Post processors regroup reports.

The post processor rewrites every resolved stack before it is counted, so the
entries it makes equal are counted together.  If it does not tell equal stacks
apart, the same report comes out when it is applied afterwards, to the keys of
the report that was made without it: the report says for a stack what that one
says for all the stacks that are rewritten to it.

* `find?_collect_comp` — counting under rewritten keys;
* `State.report_regroups` — the reports of one state, with a processor and
  without it.
-/
import Pprof.Agreement

open ByteFile Transition Weight Wrapping

namespace Pprof

section Collect

variable {K R R' : Type*} [BEq R] [EquivBEq R] [BEq R'] [EquivBEq R']

/-- What is counted under the keys that are rewritten to `f`. -/
theorem sumWhere_collect_eq_weight {es : List (Entry K)} (h : Exact es) (key : ℕ → K → R)
    {g : R → R'} (hg : ∀ a b : R, a == b → g a == g b) (f : R') :
    sumWhere Prod.fst Prod.snd (fun r => g r == f) (collect key es)
      = weight Prod.fst (fun c => c.2.count) f (keyed (fun i k => g (key i k)) es) := by
  have hclass : ∀ a b : R, a == b → (g a == f) = (g b == f) := fun a b hab =>
    BEq.congr_left (hg a b hab)
  have hweight : ∀ r, weight Prod.fst Prod.snd r (collect key es)
      = weight Prod.fst Prod.snd r ((keyed key es).map fun c => (c.1, c.2.count)) := by
    intro r
    rw [weight_collect h, weight_map]
  have hkeyed : keyed (fun i k => g (key i k)) es
      = (keyed key es).map fun c => (g c.1, c.2) := by
    rw [keyed, keyed, List.map_map]
    rfl
  rw [sumWhere_eq_of_weight_eq hclass hweight, hkeyed, weight_map, ← sum_filter_key, sumWhere,
    List.filter_map, List.map_map]
  rfl

/-- **Counting under rewritten keys** is counting, and then adding the counts of
the keys that are rewritten alike. -/
theorem find?_collect_comp {es : List (Entry K)} (h : Exact es) (key : ℕ → K → R) {g : R → R'}
    (hg : ∀ a b : R, a == b → g a == g b) (f : R') :
    ((collect (fun i k => g (key i k)) es).find? (·.1 == f)).map Prod.snd
      = if sumWhere Prod.fst Prod.snd (fun r => g r == f) (collect key es) = 0 then none
        else some (sumWhere Prod.fst Prod.snd (fun r => g r == f) (collect key es)) := by
  rw [find?_collect h, sumWhere_collect_eq_weight h key hg]

end Collect

/-- `HashMap::get` on the data of the report. -/
def Report.get (r : Report) (f : Frames) : Option ℤ := (r.data.find? (·.1 == f)).map Prod.snd

/-- The builder whose processor rewrites what that of `rb` leaves. -/
def ReportBuilder.andThen (rb : ReportBuilder) (processor : Frames → Frames) : ReportBuilder where
  framesPostProcessor := some fun i frames =>
    processor ((rb.framesPostProcessor.map fun first => first i frames).getD frames)
  timing := rb.timing

theorem ReportBuilder.framesKey_andThen {F : Type*} [Frame F] [Demangle] (rb : ReportBuilder)
    (processor : Frames → Frames) (perfmap : ℕ → ℕ → ℕ → Option Symbol) (i : ℕ)
    (item : UnresolvedFrames F) :
    (rb.andThen processor).framesKey perfmap i item = processor (rb.framesKey perfmap i item) := by
  rw [framesKey, framesKey, andThen]
  cases rb.framesPostProcessor with
  | none => rfl
  | some first => rfl

/-- The processor does not tell equal stacks apart. -/
def RespectsEq (processor : Frames → Frames) : Prop :=
  ∀ a b : Frames, a == b → processor a == processor b

variable {F B : Type*} [Frame F] [Target] [PlainLayout (Entry (UnresolvedFrames F)) B]
  [DefaultHasher] [Demangle]

namespace State

/-- **A post processor regroups the report.**  In every state that is reached
without failures and overflow: the report with one more processor has for each
stack the sum of the counts of the stacks that are rewritten to it in the report
without that processor, and no others; its total is the same. -/
theorem report_regroups {s₀ s : State F B} (hinit : Init s₀) {es : List (Event F)}
    (hrun : run step s₀ es = some s) (hclean : Along step Clean s₀ es)
    {p : Profiler F B} (hp : s.profiler = .ok p) (rb : ReportBuilder)
    {processor : Frames → Frames} (hprocessor : RespectsEq processor)
    (perfmap : ℕ → ℕ → ℕ → Option Symbol) :
    ∃ plain processed, rb.build Io.ok perfmap (.ok p) = (.ok plain, .ok p) ∧
      (rb.andThen processor).build Io.ok perfmap (.ok p) = (.ok processed, .ok p) ∧
      processed.total = plain.total ∧
      ∀ f, processed.get f =
        if sumWhere Prod.fst Prod.snd (fun r => processor r == f) plain.data = 0 then none
        else some (sumWhere Prod.fst Prod.snd (fun r => processor r == f) plain.data) := by
  have hs : Tracked s := run_invariant_along (fun _ _ _ hs hc h => hs.step hc h) hinit.tracked
    hclean hrun
  have hlt := hs.lt hp
  obtain ⟨items, hitems, hread, hplain⟩ := hs.build hp rb perfmap
  obtain ⟨items', hitems', hread', hprocessed⟩ := hs.build hp (rb.andThen processor) perfmap
  -- both calls read the same entries
  obtain rfl : items' = items := Except.ok.inj (hread'.symm.trans hread)
  refine ⟨_, _, hplain, hprocessed, ?_, fun f => ?_⟩
  · rw [total_report hitems hlt, total_report hitems hlt]
  · have hkeys : (rb.andThen processor).framesKey (F := F) perfmap
        = fun i item => processor (rb.framesKey perfmap i item) := by
      funext i item
      exact rb.framesKey_andThen processor perfmap i item
    show ((collect _ items').find? (·.1 == f)).map Prod.snd = _
    rw [hkeys]
    exact find?_collect_comp (hitems.exact hlt) (rb.framesKey perfmap) hprocessor f

end State

end Pprof

/-! ### All threads under one name -/

namespace Pprof.Given

/-- The processor of the example program: every thread gets this name. -/
def renameThread (frames : Frames) : Frames := { frames with threadName := "PROCESSED" }

theorem renameThread_respectsEq : RespectsEq renameThread := by
  intro a b hab
  have hkey := (Frames.beq_iff a b).mp hab
  simp only [Frames.key, Prod.mk.injEq] at hkey
  refine (Frames.beq_iff _ _).mpr ?_
  simp only [Frames.key, renameThread, hkey]

end Pprof.Given

namespace Pprof.State

open Given

/-- Two stacks of the report that the processor makes one. -/
theorem report_regroups_renamed :
    ∃ (s : State ℕ Item) (p : Profiler ℕ Item) (plain processed : Report),
      run step (idle true) twoAddresses = some s ∧ s.profiler = .ok p ∧
      builder.build Io.ok loopMap (.ok p) = (.ok plain, .ok p) ∧
      (builder.andThen renameThread).build Io.ok loopMap (.ok p) = (.ok processed, .ok p) ∧
      plain.data.map Prod.snd = [1, 1] ∧
      processed.get ⟨[[loop]], "PROCESSED", 0x7FFFF7D8A740, 0⟩ = some 2 ∧
      processed.total = plain.total := by
  have hrun : run step (idle true : State ℕ Item) twoAddresses = some _ := rfl
  have hclean : Along step Clean (idle true : State ℕ Item) twoAddresses := by decide
  obtain ⟨plain, processed, hplain, hprocessed, htotal, hget⟩ :=
    report_regroups (idle_init true) hrun hclean rfl builder renameThread_respectsEq loopMap
  have hcounts : ((run step (idle true : State ℕ Item) twoAddresses).bind fun s =>
      (builder.build Io.ok loopMap s.profiler).1.toOption.map fun r =>
        (r.data.map Prod.snd, sumWhere Prod.fst Prod.snd (fun f => renameThread f ==
          ⟨[[loop]], "PROCESSED", 0x7FFFF7D8A740, 0⟩) r.data)) = some ([1, 1], 2) := by
    decide +kernel
  rw [hrun, Option.bind_some, hplain] at hcounts
  obtain ⟨hdata, hsum⟩ := Prod.mk.inj (Option.some.inj hcounts)
  refine ⟨_, _, plain, processed, hrun, rfl, hplain, hprocessed, hdata, ?_, htotal⟩
  rw [hget, hsum]
  rfl

end Pprof.State
