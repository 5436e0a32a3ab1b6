/-
What resolving a stack leaves out.

`Frames::from` takes frames from its iterator in the loop and once more in the
body, after a frame of the signal handler.  Over the stack resolved frame by
frame it is the loop `Skipping.sweep`, so what is kept is told by position.

* `Frames.getElem?_resolved` — a resolved frame has the symbol of the perf map,
  or else those of the unwinder's resolver;
* `Frames.resolve_eq_sweep` — the loop as a sweep over the resolved frames;
* `Frames.ofUnresolved_spec` — what is kept, in which order, and what is left
  out.
-/
import Pprof.Frames
import Pprof.Skipping

namespace Pprof

namespace Frames

variable {F : Type*} [Frame F] [Demangle]

/-- The stack resolved frame by frame, from position `n`. -/
def resolvedFrom (perfmap : ℕ → ℕ → Option Symbol) (n : ℕ) (frames : List F) :
    List (List Symbol) :=
  frames.mapIdx fun i frame => symbols (perfmap (n + i)) frame

/-- The input stack, resolved, with nothing left out. -/
def resolved (perfmap : ℕ → ℕ → Option Symbol) (u : UnresolvedFrames F) : List (List Symbol) :=
  resolvedFrom perfmap 0 u.frames

omit [Demangle] in
/-- Each frame is resolved at its own position, by the perf map if it has a
symbol for the address and by `resolve_symbol` if not. -/
theorem getElem?_resolved (perfmap : ℕ → ℕ → Option Symbol) (u : UnresolvedFrames F) (i : ℕ) :
    (resolved perfmap u)[i]? = u.frames[i]?.map fun frame =>
      ((perfmap i (Frame.ip frame)).map fun symbol => [symbol]).getD
        (Frame.resolveSymbol frame) := by
  rw [resolved, resolvedFrom, List.getElem?_mapIdx, Nat.zero_add]
  refine congrArg (u.frames[i]?.map ·) (funext fun frame => ?_)
  rw [symbols]
  cases perfmap i (Frame.ip frame) with
  | none => rfl
  | some symbol => rfl

/-- The symbols of a frame name the signal handler. -/
def IsOwn (symbols : List Symbol) : Prop :=
  ∃ s ∈ symbols,
    s.demangledName = "perf_signal_handler" ∨ s.demangledName = "_perf_signal_handler"

/-- What the loop looks for in the symbols of a frame. -/
def hasHandler (symbols : List Symbol) : Bool := symbols.any isHandler

theorem hasHandler_iff (symbols : List Symbol) : hasHandler symbols = true ↔ IsOwn symbols := by
  simp only [hasHandler, List.any_eq_true, isHandler, Bool.or_eq_true, beq_iff_eq, IsOwn]

theorem hasHandler_eq_false_iff (symbols : List Symbol) :
    hasHandler symbols = false ↔ ¬ IsOwn symbols := by
  rw [← hasHandler_iff, Bool.not_eq_true]

omit [Demangle] in
theorem resolvedFrom_cons (perfmap : ℕ → ℕ → Option Symbol) (n : ℕ) (frame : F)
    (frames : List F) :
    resolvedFrom perfmap n (frame :: frames)
      = symbols (perfmap n) frame :: resolvedFrom perfmap (n + 1) frames := by
  rw [resolvedFrom, List.mapIdx_cons, Nat.add_zero]
  simp only [resolvedFrom, Nat.add_assoc, Nat.add_comm 1]

/-- The loop of `Frames::from` sweeps over the resolved frames. -/
theorem resolve_eq_sweep (perfmap : ℕ → ℕ → Option Symbol) (n : ℕ) (frames : List F) :
    resolve perfmap n frames
      = Skipping.sweep hasHandler List.isEmpty (resolvedFrom perfmap n frames) := by
  -- two frames go at once where the first is the handler's
  induction frames using List.twoStepInduction generalizing n with
  | nil => rfl
  | singleton frame =>
    rw [resolvedFrom_cons]
    show resolve perfmap n [frame] = Skipping.sweep hasHandler List.isEmpty [_]
    rw [resolve, resolve, Skipping.sweep, Skipping.sweep]
    rfl
  | cons_cons frame next rest ih₂ ih₁ =>
    rw [resolvedFrom_cons]
    cases hown : hasHandler (symbols (perfmap n) frame) with
    | true =>
      rw [resolvedFrom_cons, Skipping.sweep_of_marked hown, ← ih₂ (n + 1 + 1), resolve]
      exact if_pos hown
    | false =>
      rw [Skipping.sweep_of_unmarked_cons hown, ← ih₁ next (n + 1), resolve]
      refine (if_neg ?_).trans rfl
      rw [← hasHandler, hown]
      exact Bool.false_ne_true

/-- Resolving leaves out the frames of the signal handler, what comes right
after them and frames without symbols, and nothing else: of the resolved input
it keeps those at the positions that `kept` says. -/
theorem ofUnresolved_spec (perfmap : ℕ → ℕ → Option Symbol) (u : UnresolvedFrames F) :
    (ofUnresolved perfmap u).frames.Sublist (resolved perfmap u) ∧
    (∀ symbols ∈ (ofUnresolved perfmap u).frames, ¬ IsOwn symbols ∧ symbols ≠ []) ∧
    (∃ kept : List Bool, kept.length = (resolved perfmap u).length ∧
      (ofUnresolved perfmap u).frames = Skipping.select kept (resolved perfmap u) ∧
      ∀ (i : ℕ) (symbols : List Symbol), (resolved perfmap u)[i]? = some symbols →
        symbols ≠ [] →
        kept[i]? = some true ∨ IsOwn symbols ∨
          ∃ j previous, i = j + 1 ∧ (resolved perfmap u)[j]? = some previous ∧
            IsOwn previous) ∧
    ((∀ symbols ∈ resolved perfmap u, ¬ IsOwn symbols) → (ofUnresolved perfmap u).frames
      = (resolved perfmap u).filter fun symbols => symbols ≠ []) := by
  -- the loop that removes frames is a sweep over the resolved frames, and so a mask on them
  have hsweep : (ofUnresolved perfmap u).frames
      = Skipping.sweep hasHandler List.isEmpty (resolved perfmap u) :=
    resolve_eq_sweep perfmap 0 u.frames
  obtain ⟨hselect, hlength⟩ := @Skipping.sweep_eq_select _ hasHandler List.isEmpty
    (resolved perfmap u)
  have hkept := hsweep.trans hselect
  refine ⟨?_, ?_, ⟨_, hlength, hkept, ?_⟩, ?_⟩
  · rw [hkept]
    exact Skipping.select_sublist _ _
  · intro symbols hmem
    rw [hkept] at hmem
    obtain ⟨i, hi, hmask⟩ := Skipping.exists_of_mem_select hmem
    obtain ⟨hclean, hempty⟩ := (Skipping.mask_getElem hi).1 hmask
    rw [hasHandler_eq_false_iff] at hclean
    rw [List.isEmpty_eq_false_iff] at hempty
    exact ⟨hclean, hempty⟩
  · intro i symbols hi hne
    -- a frame that is not kept is the handler's own or follows one that is
    obtain hmask | hown | ⟨j, previous, rfl, hj, hown⟩ :=
      (Skipping.mask_getElem hi).2 (List.isEmpty_eq_false_iff.mpr hne)
    · exact .inl hmask
    · exact .inr (.inl ((hasHandler_iff symbols).mp hown))
    · exact .inr (.inr ⟨j, previous, rfl, hj, (hasHandler_iff previous).mp hown⟩)
  · intro hclean
    rw [hsweep, Skipping.sweep_of_unmarked fun symbols hmem =>
      (hasHandler_eq_false_iff symbols).mpr (hclean symbols hmem)]
    refine List.filter_congr fun symbols _ => ?_
    cases symbols with
    | nil => rfl
    | cons s symbols => simp

end Frames

/-! ### A stack with frames of the handler -/

namespace Frames

local instance demangleName : Demangle := ⟨id⟩

/-- The handler is below 16 and the trampoline that called it below 32; nothing is
known of the addresses below 48. -/
local instance frameAddress : Frame ℕ where
  ip := id
  symbolAddress := id
  resolveSymbol address :=
    if address < 16 then
      [⟨some [0x70, 0x65, 0x72, 0x66, 0x5F, 0x73, 0x69, 0x67, 0x6E, 0x61, 0x6C, 0x5F, 0x68, 0x61,
        0x6E, 0x64, 0x6C, 0x65, 0x72], some address, none, none⟩]
    else if address < 32 then [⟨some [0x72, 0x74], some address, none, none⟩]
    else if address < 48 then []
    else [⟨some [0x66], some address, none, none⟩, ⟨some [0x67], some address, none, none⟩]

/-- The perf map has a name for the last address. -/
def lastMapped : ℕ → ℕ → Option Symbol := fun _ address =>
  if address = 80 then some ⟨some [0x6A], none, none, none⟩ else none

example : ((resolve lastMapped 0 [8, 24, 64, 40, 80, 12, 9, 72]).map fun frame =>
    frame.map Symbol.demangledName) = [["f", "g"], ["j"], ["f", "g"]] := by decide

end Frames

end Pprof
