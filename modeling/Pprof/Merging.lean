/-
Which samples counting merges.

The collector merges samples whose thread ids and function addresses are equal;
a report shows what the loop of `Frames::from` makes of their instruction
pointers.  Of a frame that loop only sees its `View`: that it is the handler,
that it has no symbols, or the names it shows (`rawNames_resolve`).

The function address of code outside every loaded module is null, and a perf
map may know such code by different names.  `neverMerges_iff` says when this
does no harm: when all frames with a null address look alike, or when no frame
of the process is shown at all.
-/
import Pprof.PerfMap
import Pprof.Recording

open ByteFile Transition Weight

namespace Pprof

namespace Frames

/-- What the loop of `Frames::from` sees of a frame. -/
inductive View where
  /-- The frame and the next one are left out. -/
  | handler
  | nothing
  | shown (names : List (List UInt8))
  deriving DecidableEq

variable {F : Type*} [Frame F] [Demangle]

def view (perfmap : ℕ → Option Symbol) (frame : F) : View :=
  if (symbols perfmap frame).any isHandler then .handler
  else if (symbols perfmap frame).isEmpty then .nothing
  else .shown ((symbols perfmap frame).map Symbol.rawName)

/-- The names that are shown of a stack of such frames. -/
def shownNames : List View → List (List (List UInt8))
  | [] => []
  | [.handler] => []
  | .handler :: _ :: rest => shownNames rest
  | .nothing :: rest => shownNames rest
  | .shown names :: rest => names :: shownNames rest

/-- Resolving a stack looks at the views of its frames only. -/
theorem rawNames_resolve (perfmap : ℕ → Option Symbol) (n : ℕ) (frames : List F) :
    rawNames (resolve (fun _ => perfmap) n frames)
      = shownNames (frames.map (view perfmap)) := by
  -- a handler frame also takes the frame after it, hence the two cases for one
  fun_induction resolve (fun _ => perfmap) n frames with
  | case1 n => rfl
  | case2 n frame hhandler =>
    have hview : view perfmap frame = .handler := if_pos hhandler
    rw [List.map_singleton, hview]
    rfl
  | case3 n frame hhandler next rest ih =>
    have hview : view perfmap frame = .handler := if_pos hhandler
    rw [List.map_cons, List.map_cons, hview, shownNames]
    exact ih
  | case4 n frame rest hhandler hempty ih =>
    have hview : view perfmap frame = .nothing := by
      rw [view, if_neg hhandler, if_pos hempty]
    rw [List.map_cons, hview, shownNames]
    exact ih
  | case5 n frame rest hhandler hempty ih =>
    have hview : view perfmap frame
        = .shown ((symbols perfmap frame).map Symbol.rawName) := by
      rw [view, if_neg hhandler, if_neg hempty]
    rw [List.map_cons, hview, shownNames, rawNames, List.map_cons]
    exact congrArg _ ih

/-- Symbols with equal names are the handler together. -/
theorem any_isHandler_congr : ∀ {symbols symbols' : List Symbol},
    symbols.map Symbol.rawName = symbols'.map Symbol.rawName →
      symbols.any isHandler = symbols'.any isHandler := by
  intro symbols
  induction symbols with
  | nil =>
    intro symbols' h
    rw [List.map_eq_nil_iff.mp h.symm]
  | cons a symbols ih =>
    intro symbols' h
    obtain ⟨b, symbols', rfl, hab, hrest⟩ := List.map_eq_cons_iff.mp h.symm
    have hhandler : isHandler a = isHandler b := by
      rw [isHandler, isHandler, Symbol.demangledName, Symbol.demangledName, Symbol.sysName,
        Symbol.sysName, hab]
    rw [List.any_cons, List.any_cons, hhandler, ih hrest.symm]

/-- Frames with equal symbols look alike. -/
theorem view_congr {perfmap : ℕ → Option Symbol} {a b : F}
    (h : symbols perfmap a == symbols perfmap b) : view perfmap a = view perfmap b := by
  have hnames := (list_beq_iff Symbol.beq_iff _ _).mp h
  have hempty : (symbols perfmap a).isEmpty = (symbols perfmap b).isEmpty := by
    rw [← List.isEmpty_map (f := Symbol.rawName), hnames, List.isEmpty_map]
  rw [view, view, any_isHandler_congr hnames, hempty, hnames]

omit [Demangle] in
/-- A view is told by what is shown of it alone, and with a frame after it. -/
theorem view_eq_of_shownNames {v w : View} {names : List (List UInt8)}
    (hone : shownNames [v] = shownNames [w])
    (htwo : shownNames [v, .shown names] = shownNames [w, .shown names]) : v = w := by
  cases v with
  | handler =>
    -- a handler frame and one that shows nothing differ only by what follows them
    cases w with
    | handler => rfl
    | nothing => simp [shownNames] at htwo
    | shown names => simp [shownNames] at hone
  | nothing =>
    cases w with
    | handler => simp [shownNames] at htwo
    | nothing => rfl
    | shown names => simp [shownNames] at hone
  | shown names =>
    cases w with
    | handler => simp [shownNames] at hone
    | nothing => simp [shownNames] at hone
    | shown names => simpa [shownNames] using hone

omit [Demangle] in
theorem shownNames_of_hidden : ∀ {views : List View},
    (∀ v ∈ views, ∀ names, v ≠ .shown names) → shownNames views = [] := by
  intro views
  induction views using shownNames.induct with
  | case1 => exact fun _ => rfl
  | case2 => exact fun _ => rfl
  | case3 v rest ih =>
    intro h
    rw [shownNames]
    exact ih fun v hv => h v (List.mem_cons_of_mem _ (List.mem_cons_of_mem _ hv))
  | case4 rest ih =>
    intro h
    rw [shownNames]
    exact ih fun v hv => h v (List.mem_cons_of_mem _ hv)
  | case5 names rest ih =>
    intro h
    exact absurd rfl (h _ List.mem_cons_self names)

end Frames

variable {F B : Type*} [Frame F] [Demangle]

section Frames

variable (F)

/-- Equal stacks resolve to equal frames. -/
def SameFrames (perfmap : ℕ → Option Symbol) : Prop :=
  ∀ u v : UnresolvedFrames F, u == v →
    (Frames.ofUnresolved (fun _ => perfmap) u).frames
      == (Frames.ofUnresolved (fun _ => perfmap) v).frames

/-- Frames whose function address is null look alike. -/
def NullAlike (perfmap : ℕ → Option Symbol) : Prop :=
  ∀ a b : F, Frame.symbolAddress a = 0 → Frame.symbolAddress b = 0 →
    Frames.view perfmap a = Frames.view perfmap b

/-- No frame has a name to show. -/
def NothingShown (perfmap : ℕ → Option Symbol) : Prop :=
  ∀ (a : F) names, Frames.view perfmap a ≠ .shown names

/-- Frames of one function have equal symbols. -/
def FunctionsAlike (perfmap : ℕ → Option Symbol) : Prop :=
  ∀ a b : F, Frame.symbolAddress a = Frame.symbolAddress b → Frame.symbolAddress a ≠ 0 →
    Frames.symbols perfmap a == Frames.symbols perfmap b

end Frames

theorem ofUnresolved_frames_beq {perfmap : ℕ → Option Symbol} {u v : UnresolvedFrames F} :
    (Frames.ofUnresolved (fun _ => perfmap) u).frames
        == (Frames.ofUnresolved (fun _ => perfmap) v).frames ↔
      Frames.shownNames (u.frames.map (Frames.view perfmap))
        = Frames.shownNames (v.frames.map (Frames.view perfmap)) := by
  rw [Frames.frames_beq_iff, Frames.ofUnresolved, Frames.ofUnresolved, Frames.rawNames_resolve,
    Frames.rawNames_resolve]

/-- Where the null address means one view, the address determines the view. -/
theorem map_view_eq {perfmap : ℕ → Option Symbol} (hfunctions : FunctionsAlike F perfmap)
    (hnull : NullAlike F perfmap) : ∀ {frames frames' : List F},
      frames.map Frame.symbolAddress = frames'.map Frame.symbolAddress →
        frames.map (Frames.view perfmap) = frames'.map (Frames.view perfmap) := by
  intro frames
  induction frames with
  | nil =>
    intro frames' h
    rw [List.map_eq_nil_iff.mp h.symm]
  | cons a frames ih =>
    intro frames' h
    obtain ⟨b, frames', rfl, hba, hrest⟩ := List.map_eq_cons_iff.mp h.symm
    have hview : Frames.view perfmap a = Frames.view perfmap b := by
      by_cases ha : Frame.symbolAddress a = 0
      · exact hnull a b ha (hba.trans ha)
      · exact Frames.view_congr (hfunctions a b hba.symm ha)
    rw [List.map_cons, List.map_cons, hview, ih hrest.symm]

/-- A stack of these frames, in some thread. -/
def stackOf (frames : List F) : UnresolvedFrames F := .new frames ⟨[], Nat.zero_le _⟩ 0 0

theorem sameFrames_iff {perfmap : ℕ → Option Symbol} (hfunctions : FunctionsAlike F perfmap) :
    SameFrames F perfmap ↔ NullAlike F perfmap ∨ NothingShown F perfmap := by
  constructor
  · intro h
    by_contra hcon
    obtain ⟨hnull, hshown⟩ := not_or.mp hcon
    simp only [NullAlike, NothingShown, not_forall, not_not] at hnull hshown
    obtain ⟨a, b, ha, hb, hab⟩ := hnull
    obtain ⟨c, names, hc⟩ := hshown
    -- the frame alone tells shown from not shown, a frame below it the handler from nothing
    have hstacks : ∀ rest : List F,
        Frames.shownNames ((a :: rest).map (Frames.view perfmap))
          = Frames.shownNames ((b :: rest).map (Frames.view perfmap)) := by
      intro rest
      refine ofUnresolved_frames_beq.mp (h (stackOf (a :: rest)) (stackOf (b :: rest)) ?_)
      rw [UnresolvedFrames.beq_iff, UnresolvedFrames.key, UnresolvedFrames.key]
      show (Frame.symbolAddress a :: _, _) = (Frame.symbolAddress b :: _, _)
      rw [ha, hb]
      rfl
    have htwo := hstacks [c]
    simp only [List.map_cons, List.map_nil, hc] at htwo
    exact hab (Frames.view_eq_of_shownNames (hstacks []) htwo)
  · rintro (hnull | hhidden) u v huv
    · have hkey := congrArg Prod.fst (UnresolvedFrames.beq_iff.mp huv)
      rw [ofUnresolved_frames_beq, map_view_eq hfunctions hnull hkey]
    · have hnone : ∀ frames : List F, ∀ view ∈ frames.map (Frames.view perfmap), ∀ names,
          view ≠ .shown names := by
        intro frames view hview
        obtain ⟨a, _, rfl⟩ := List.mem_map.mp hview
        exact hhidden a
      rw [ofUnresolved_frames_beq, Frames.shownNames_of_hidden (hnone _),
        Frames.shownNames_of_hidden (hnone _)]

/-! ### Counting -/

variable [Target] [DefaultHasher] [PlainLayout (Entry (UnresolvedFrames F)) B]

/-- Counting never merges two samples that would be reported as different
stacks: equal stacks resolve to equal frames, and after every recording the
counts that `build` reports under a list of frames are the number of samples
that resolve to it. -/
structure NeverMerges (F B : Type*) [Frame F] [Demangle] [Target] [DefaultHasher]
    [PlainLayout (Entry (UnresolvedFrames F)) B] (perfmap : ℕ → Option Symbol) : Prop where
  frames : SameFrames F perfmap
  counts : ∀ {s₀ s : Recording F B} {xs : List (Sample F)}, s₀.Fresh →
    (xs.length : ℤ) < 2 ^ 63 → run Recording.step s₀ xs = some s →
    ∀ {rb : ReportBuilder}, rb.framesPostProcessor = none → ∃ report,
      (rb.build Io.ok (fun _ _ => perfmap) (.ok s.profiler)).1 = .ok report ∧
      ∀ frames, sumWhere Prod.fst Prod.snd (fun f => f.frames == frames) report.data
        = ((s.taken.map Sample.frames).filter fun u =>
            (Frames.ofUnresolved (fun _ => perfmap) u).frames == frames).length

/-- **What counting merges**, where the frames of one function have equal
symbols: it never merges samples that would be reported as different stacks if
and only if all frames with a null function address look alike, or no frame is
shown. -/
theorem neverMerges_iff {perfmap : ℕ → Option Symbol} (hfunctions : FunctionsAlike F perfmap) :
    NeverMerges F B perfmap ↔ NullAlike F perfmap ∨ NothingShown F perfmap := by
  rw [← sameFrames_iff hfunctions]
  refine ⟨fun h => h.frames, fun hsame => ⟨hsame, fun hfresh hlt hrun rb hnone => ?_⟩⟩
  obtain ⟨es, hes⟩ := Recording.recorded_of_run hfresh hlt hrun
  obtain ⟨hbuild, hselect⟩ := hes.build rb hnone fun _ _ => perfmap
  refine ⟨_, hbuild, fun frames => ?_⟩
  have hframes : ∀ f g : Frames, f == g → (f.frames == frames) = (g.frames == frames) := by
    intro f g hfg
    have hnames : f.frames == g.frames :=
      (Frames.frames_beq_iff _ _).mpr (congrArg Prod.fst ((Frames.beq_iff f g).mp hfg))
    exact BEq.congr_left hnames
  rw [hselect _ (fun u => (Frames.ofUnresolved (fun _ => perfmap) u).frames == frames) hframes
    fun _ _ _ => rfl]
  exact hes.counts.selected fun u v huv => BEq.congr_left (hsame u v huv)

end Pprof

/-! ### Just-in-time compiled code -/

namespace Pprof.Jit

/-- An instruction pointer.  One module is loaded, from `0x400000` to
`0x500000`; its functions are 16 bytes long and all have one name. -/
structure Ip where
  ip : ℕ
  deriving DecidableEq

def Ip.loaded (a : Ip) : Bool := 0x400000 ≤ a.ip && a.ip < 0x500000

scoped instance : Frame Ip where
  ip a := a.ip
  symbolAddress a := if a.loaded then a.ip / 16 * 16 else 0
  resolveSymbol a := if a.loaded then [⟨some [0x66], none, none, none⟩] else []

scoped instance : Target := Target.linux
scoped instance : DefaultHasher := DefaultHasher.sip
scoped instance : Demangle := ⟨id⟩

/-- The entries of the collector in such a process. -/
abbrev Item := Entry (UnresolvedFrames Ip)

scoped instance : PlainLayout Item Item := PlainLayout.cell Item

/-- Two functions that were compiled while the process ran. -/
def perfMap : PerfMap :=
  ⟨[(0x7F0000000000, 0x7F0000000100, "a"), (0x7F0000000100, 0x7F0000000200, "b")]⟩

theorem loaded_iff {a : Ip} : a.loaded = true ↔ Frame.symbolAddress a ≠ 0 := by
  constructor
  · intro hloaded hnull
    have haddr : a.ip / 16 * 16 = 0 := (if_pos hloaded).symm.trans hnull
    rw [Ip.loaded, Bool.and_eq_true, decide_eq_true_iff, decide_eq_true_iff] at hloaded
    omega
  · intro h
    by_contra hloaded
    exact h (if_neg hloaded)

theorem functionsAlike (resolver : Option PerfMap)
    (h : ∀ a : Ip, a.loaded = true → resolveInPerfmap resolver a.ip = none) :
    FunctionsAlike Ip (resolveInPerfmap resolver) := by
  intro a b hab ha
  have hsymbols : ∀ c : Ip, Frame.symbolAddress c ≠ 0 →
      Frames.symbols (resolveInPerfmap resolver) c = [⟨some [0x66], none, none, none⟩] := by
    intro c hc
    have hloaded := loaded_iff.mpr hc
    have hnone : resolveInPerfmap resolver (Frame.ip c) = none := h c hloaded
    rw [Frames.symbols, hnone]
    exact if_pos hloaded
  rw [hsymbols a ha, hsymbols b (hab ▸ ha)]
  rfl

end Pprof.Jit

namespace Pprof

open Jit

/-- Without a perf map, code that was not loaded has no symbols at all. -/
theorem neverMerges_without_perfMap : NeverMerges Ip Item (resolveInPerfmap none) := by
  refine (neverMerges_iff (functionsAlike none fun _ _ => rfl)).mpr (.inl fun a b ha hb => ?_)
  have hview : ∀ c : Ip, Frame.symbolAddress c = 0 →
      Frames.view (resolveInPerfmap none) c = .nothing := by
    intro c hc
    have hloaded : ¬ c.loaded = true := fun h => loaded_iff.mp h hc
    have hsymbols : Frames.symbols (resolveInPerfmap none) c = [] := if_neg hloaded
    rw [Frames.view, hsymbols]
    rfl
  rw [hview a ha, hview b hb]

/-- Two samples in different functions of the perf map are one to the collector,
and are reported under the name of one of them. -/
theorem not_neverMerges_jit :
    FunctionsAlike Ip (resolveInPerfmap (some perfMap)) ∧
    (stackOf [Ip.mk 0x7F0000000010] == stackOf [Ip.mk 0x7F0000000110]) = true ∧
    ((Frames.ofUnresolved (fun _ => resolveInPerfmap (some perfMap))
        (stackOf [Ip.mk 0x7F0000000010])).frames
      == (Frames.ofUnresolved (fun _ => resolveInPerfmap (some perfMap))
        (stackOf [Ip.mk 0x7F0000000110])).frames) = false ∧
    ¬ NeverMerges Ip Item (resolveInPerfmap (some perfMap)) := by
  have hfunctions : FunctionsAlike Ip (resolveInPerfmap (some perfMap)) := by
    refine functionsAlike _ fun a hloaded => ?_
    rw [Ip.loaded, Bool.and_eq_true, decide_eq_true_iff, decide_eq_true_iff] at hloaded
    have hfind : perfMap.find a.ip = none := by
      simp [PerfMap.find, perfMap]
      omega
    simp [resolveInPerfmap, hfind]
  have hequal : (stackOf [Ip.mk 0x7F0000000010] == stackOf [Ip.mk 0x7F0000000110]) = true := by
    decide
  have hframes : ((Frames.ofUnresolved (fun _ => resolveInPerfmap (some perfMap))
        (stackOf [Ip.mk 0x7F0000000010])).frames
      == (Frames.ofUnresolved (fun _ => resolveInPerfmap (some perfMap))
        (stackOf [Ip.mk 0x7F0000000110])).frames) = false := by decide +kernel
  refine ⟨hfunctions, hequal, hframes, fun h => ?_⟩
  have hsame := h.frames _ _ hequal
  rw [hframes] at hsame
  cases hsame

end Pprof
