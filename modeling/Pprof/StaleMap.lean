/-
A perf map that is behind the file.

A refresh finds nothing new when the file changes twice in a second, refreshes
may overtake each other, and a report that is being built keeps the map that it
started with.  So a map may be in use long after the file has grown.

If the runtime appends whole lines, such a map still names nothing wrongly.
Every map that a run returns was read from some first lines of the file, however
its reads fell between the appends; the lines that follow only add ranges behind
its own, and the first range around an address answers for it.

* `LineReader.ranges_initial` — reading on only adds ranges;
* `Resolver.Lined` — what every step keeps;
* `Resolver.never_wrong` — what an old map answers, the map of the file does.
-/
import Pprof.Resolver

open Transition

namespace Pprof

/-- The file ends where a line does. -/
def WholeLines (content : List UInt8) : Prop := content = [] ∨ content.getLast? = some 0x0A

theorem WholeLines.append {content bytes : List UInt8} (h : WholeLines content)
    (hbytes : WholeLines bytes) : WholeLines (content ++ bytes) := by
  obtain rfl | hlast := hbytes
  · rw [List.append_nil]
    exact h
  · right
    rw [List.getLast?_append, hlast]
    rfl

namespace LineReader

/-- Reading on only adds ranges. -/
theorem ranges_initial {r r' : LineReader} {bs : List UInt8} (h : r.readBytes bs = some r') :
    r.ranges <+: r'.ranges := by
  induction bs generalizing r with
  | nil =>
    obtain rfl : r = r' := Option.some.inj h
    exact List.prefix_rfl
  | cons b bs ih =>
    rw [readBytes, List.foldlM_cons, Option.bind_eq_bind, Option.bind_eq_some_iff] at h
    obtain ⟨next, hnext, hrest⟩ := h
    refine List.IsPrefix.trans ?_ (ih hrest)
    rw [readByte] at hnext
    split at hnext
    · obtain ⟨range, _, rfl⟩ := Option.map_eq_some_iff.mp hnext
      exact List.prefix_append _ _
    · rw [← Option.some.inj hnext]

/-- After whole lines the reader is in no line. -/
theorem pending_of_wholeLines {content : List UInt8} {r : LineReader}
    (h : WholeLines content) (hread : LineReader.new.readBytes content = some r) :
    r.pending = [] := by
  obtain rfl | hlast := h
  · rw [← Option.some.inj hread]
    rfl
  · obtain ⟨lines, rfl⟩ := List.getLast?_eq_some_iff.mp hlast
    rw [readBytes_append, Option.bind_eq_some_iff] at hread
    obtain ⟨before, _, hfeed⟩ := hread
    have hfeed : before.readByte 0x0A = some r := by simpa [readBytes] using hfeed
    rw [readByte, if_pos rfl] at hfeed
    obtain ⟨range, _, rfl⟩ := Option.map_eq_some_iff.mp hfeed
    rfl

end LineReader

namespace PerfMap

/-- The map was read from the first lines of the file. -/
def Earlier (content : List UInt8) (m : PerfMap) : Prop :=
  ∃ n, n ≤ content.length ∧ LineReader.new.readBytes (content.take n) = some ⟨[], m.ranges⟩

theorem Earlier.append {content : List UInt8} {m : PerfMap} (h : Earlier content m)
    (bytes : List UInt8) : Earlier (content ++ bytes) m := by
  obtain ⟨n, hn, hread⟩ := h
  refine ⟨n, ?_, ?_⟩
  · rw [List.length_append]
    omega
  · rw [List.take_append_of_le_length hn]
    exact hread

theorem Earlier.new_take {content : List UInt8} {m : PerfMap} (h : Earlier content m) :
    ∃ n, n ≤ content.length ∧ PerfMap.new (content.take n) = some m := by
  obtain ⟨n, hn, hread⟩ := h
  exact ⟨n, hn, new_eq_some hread (if_pos rfl)⟩

/-- The map of the file has the ranges of an earlier map in front. -/
theorem Earlier.ranges_initial {content : List UInt8} {m full : PerfMap} (h : Earlier content m)
    (hfull : PerfMap.new content = some full) : m.ranges <+: full.ranges := by
  obtain ⟨n, hn, hread⟩ := h
  obtain ⟨reader, hreader, rfl⟩ := Option.map_eq_some_iff.mp hfull
  obtain ⟨before, hbefore, heof⟩ := Option.bind_eq_some_iff.mp hreader
  -- reading the whole file goes on where the earlier reader stopped
  rw [← List.take_append_drop n content, LineReader.readBytes_append, hread,
    Option.bind_some] at hbefore
  refine (LineReader.ranges_initial hbefore).trans ?_
  rw [LineReader.atEof] at heof
  split at heof
  · rw [← Option.some.inj heof]
  · obtain ⟨range, _, rfl⟩ := Option.map_eq_some_iff.mp heof
    exact List.prefix_append _ _

/-- The first range around an address is the first in every longer list. -/
theorem find_of_initial {m full : PerfMap} (h : m.ranges <+: full.ranges) {addr : ℕ}
    {name : String} (hfind : m.find addr = some name) : full.find addr = some name := by
  obtain ⟨more, hmore⟩ := h
  obtain ⟨range, hrange, rfl⟩ := Option.map_eq_some_iff.mp hfind
  rw [find, ← hmore, List.find?_append, hrange]
  rfl

end PerfMap

/-- Where a run has read whole lines. -/
def Phase.Lined (content : List UInt8) : Phase → Prop
  | .reading offset reader cut => cut = none ∧ offset ≤ content.length ∧
    LineReader.new.readBytes (content.take offset) = some reader
  | .returned (some map) _ => PerfMap.Earlier content map
  | _ => True

theorem Phase.Lined.append {p : Phase} {content : List UInt8} (h : p.Lined content)
    (bytes : List UInt8) : p.Lined (content ++ bytes) := by
  cases p with
  | reading offset reader cut =>
    obtain ⟨hcut, hoffset, hread⟩ := h
    refine ⟨hcut, ?_, ?_⟩
    · rw [List.length_append]
      omega
    · rw [List.take_append_of_le_length hoffset]
      exact hread
  | returned map size =>
    cases map with
    | none => trivial
    | some map => exact PerfMap.Earlier.append h bytes
  | _ => trivial

namespace Resolver

/-- One read; the file ends with a line. -/
theorem lined_read {content : List UInt8} (hwhole : WholeLines content) {n offset : ℕ}
    (hn : n ≠ 0) {reader : LineReader} {cut : Option ℕ}
    (h : (Phase.reading offset reader cut).Lined content) :
    (read content n offset reader cut).Lined content := by
  obtain ⟨rfl, hoffset, hread⟩ := h
  rw [read]
  split
  · -- at the end of the file the last line is complete
    rename_i hend
    obtain rfl : offset = content.length := hoffset.antisymm (length_le_of_read_eq_nil hn hend)
    have hpending : reader.pending = [] := by
      rw [List.take_length] at hread
      exact LineReader.pending_of_wholeLines hwhole hread
    rw [if_pos hpending]
    refine ⟨content.length, le_rfl, hread.trans ?_⟩
    rw [← hpending]
  · rename_i hmore
    split
    · rename_i reader' hbytes
      refine ⟨rfl, ?_, ?_⟩
      · have hpos := List.length_pos_iff.mpr hmore
        rw [List.length_take, List.length_drop] at hpos ⊢
        omega
      · rw [take_read, LineReader.readBytes_append, hread, Option.bind_some, hbytes]
    · trivial

/-- The file has whole lines, and so has all that was read from it. -/
structure Lined (s : Resolver) : Prop where
  content : WholeLines s.content
  runs : ∀ r ∈ s.runs, r.phase.Lined s.content
  installed : ∀ m, s.installed = some (some m) → PerfMap.Earlier s.content m

/-- The event appends whole lines only. -/
def Event.Lined : Event → Prop
  | .append bytes _ => WholeLines bytes
  | _ => True

theorem lined_new : new.Lined where
  content := .inl rfl
  runs := fun _ hr => absurd hr List.not_mem_nil
  installed := fun m hm => by cases hm

theorem lined_initResolver {s : Resolver} (h : s.Lined) {n : ℕ} {p p' : Phase} {mtime : ℕ}
    (hstep : s.initResolver n p = some (p', mtime)) (hp : p.Lined s.content) :
    p'.Lined s.content := by
  cases p with
  | started =>
    obtain ⟨rfl, _⟩ := Prod.mk.inj (Option.some.inj hstep)
    split <;> trivial
  | opened =>
    rw [initResolver] at hstep
    split at hstep
    · obtain ⟨rfl, _⟩ := Prod.mk.inj (Option.some.inj hstep)
      trivial
    · obtain ⟨rfl, _⟩ := Prod.mk.inj (Option.some.inj hstep)
      trivial
  | dated secs =>
    obtain ⟨rfl, _⟩ := Prod.mk.inj (Option.some.inj hstep)
    split <;> trivial
  | changed secs =>
    obtain ⟨rfl, _⟩ := Prod.mk.inj (Option.some.inj hstep)
    exact ⟨rfl, Nat.zero_le _, rfl⟩
  | reading offset reader cut =>
    rw [initResolver] at hstep
    split at hstep
    · rename_i file hfile
      -- here it matters that the file holds whole lines
      have hcontent : s.content = file.content := by rw [Resolver.content, hfile, Option.elim_some]
      split at hstep
      · cases hstep
      · rename_i hn
        obtain ⟨rfl, _⟩ := Prod.mk.inj (Option.some.inj hstep)
        rw [hcontent] at hp ⊢
        exact lined_read (hcontent ▸ h.content) hn hp
    · cases hstep
  | returned map size => cases hstep
  | finished => cases hstep

/-- A run goes on to the phase `p'`. -/
theorem Lined.set {s : Resolver} (h : s.Lined) (i : ℕ) (lazy : Bool) {p' : Phase}
    (hp' : p'.Lined s.content) : ∀ r ∈ s.runs.set i ⟨lazy, p'⟩, r.phase.Lined s.content := by
  intro r hr
  obtain hr | rfl := List.mem_or_eq_of_mem_set hr
  · exact h.runs r hr
  · exact hp'

theorem Lined.step {s s' : Resolver} {e : Event} (h : s.Lined) (he : e.Lined)
    (hstep : Resolver.step s e = some s') : s'.Lined ∧ s.content <+: s'.content := by
  cases e with
  | append bytes now =>
    obtain rfl := Option.some.inj hstep
    refine ⟨⟨h.content.append he, fun r hr => (h.runs r hr).append bytes, fun m hm => ?_⟩,
      List.prefix_append _ _⟩
    exact (h.installed m hm).append bytes
  | refresh =>
    obtain rfl := Option.some.inj hstep
    refine ⟨⟨h.content, fun r hr => ?_, h.installed⟩, List.prefix_rfl⟩
    obtain hr | hr := List.mem_append.mp hr
    · exact h.runs r hr
    · rw [List.mem_singleton.mp hr]
      trivial
  | force now =>
    rw [Resolver.step] at hstep
    split at hstep
    · cases hstep
    · obtain rfl := Option.some.inj hstep
      -- `touch` makes an empty file, or changes the time only
      have hcontent : (touch now s.file).content = s.content := by
        rw [touch, Resolver.content]
        cases s.file <;> rfl
      refine ⟨⟨?_, fun r hr => ?_, ?_⟩, ?_⟩
      · show WholeLines (touch now s.file).content
        rw [hcontent]
        exact h.content
      · show r.phase.Lined (touch now s.file).content
        rw [hcontent]
        obtain hr | hr := List.mem_append.mp hr
        · exact h.runs r hr
        · rw [List.mem_singleton.mp hr]
          trivial
      · show ∀ m, s.installed = some (some m) → PerfMap.Earlier (touch now s.file).content m
        rw [hcontent]
        exact h.installed
      · show s.content <+: (touch now s.file).content
        rw [hcontent]
  | advance i n =>
    rw [Resolver.step] at hstep
    split at hstep
    · cases hstep
    · obtain rfl := Option.some.inj hstep
      exact ⟨⟨h.content, h.set i false trivial, h.installed⟩, List.prefix_rfl⟩
    · rename_i lazy p _ hi
      split at hstep
      · rename_i p' mtime hnext
        obtain rfl := Option.some.inj hstep
        have hp' := lined_initResolver h hnext (h.runs _ (List.mem_of_getElem? hi))
        exact ⟨⟨h.content, h.set i lazy hp', h.installed⟩, List.prefix_rfl⟩
      · cases hstep
  | store i =>
    rw [Resolver.step] at hstep
    split at hstep
    · rename_i map size hi
      obtain rfl := Option.some.inj hstep
      refine ⟨⟨h.content, h.set i true trivial, fun m hm => ?_⟩, List.prefix_rfl⟩
      obtain rfl : map = some m := Option.some.inj hm
      exact h.runs _ (List.mem_of_getElem? hi)
    · rename_i map size hi
      split at hstep
      · obtain rfl := Option.some.inj hstep
        refine ⟨⟨h.content, h.set i false trivial, fun m hm => ?_⟩, List.prefix_rfl⟩
        obtain rfl : map = m := Option.some.inj (Option.some.inj hm)
        exact h.runs _ (List.mem_of_getElem? hi)
      · cases hstep
    · cases hstep

/-- **An old map names nothing wrongly.**  In every run whose appends are whole
lines, whatever refreshes were missed or overtaken: a map that `RESOLVER` holds
at some time is that of the first lines of the file, and whatever it answers
later, the map of the file at that later time answers too. -/
theorem never_wrong {t s : Resolver} {es es' : List Event} (ht : run step new es = some t)
    (hs : run step t es' = some s) (hes : ∀ e ∈ es ++ es', e.Lined) {m : PerfMap}
    (hm : t.installed = some (some m)) :
    (∃ n, n ≤ t.content.length ∧ PerfMap.new (t.content.take n) = some m) ∧
    ∀ full, PerfMap.new s.content = some full → ∀ ip symbol,
      resolveInPerfmap (some m) ip = some symbol →
        resolveInPerfmap (some full) ip = some symbol := by
  obtain ⟨hes, hes'⟩ := List.forall_mem_append.mp hes
  have htlined : t.Lined := run_invariant_along (fun _ _ _ h he hstep => (h.step he hstep).1)
    lined_new (along_of_forall (fun e he _ => hes e he) new) ht
  have hearlier := htlined.installed m hm
  -- from `t` on the file has only grown
  have hgrown : s.Lined ∧ t.content <+: s.content :=
    run_invariant_along (I := fun u => u.Lined ∧ t.content <+: u.content)
      (fun _ _ _ h he hstep => ⟨(h.1.step he hstep).1, h.2.trans (h.1.step he hstep).2⟩)
      ⟨htlined, List.prefix_rfl⟩ (along_of_forall (fun e he _ => hes' e he) t) hs
  refine ⟨hearlier.new_take, fun full hfull ip symbol hsymbol => ?_⟩
  obtain ⟨_, bytes, hbytes⟩ := hgrown
  rw [← hbytes] at hfull
  obtain ⟨name, hname, rfl⟩ := Option.map_eq_some_iff.mp hsymbol
  have hfind := PerfMap.find_of_initial ((hearlier.append bytes).ranges_initial hfull) hname
  rw [resolveInPerfmap, Option.bind_some, hfind]
  rfl

end Resolver

end Pprof

namespace Pprof.Resolver

open Given

/-- The refresh in the same second is missed; the old map goes on naming `f`. -/
theorem never_wrong_same_second : ∃ t s, run step new firstCall = some t ∧
    run step t sameSecond = some s ∧ t.installed = some (some ⟨[(0x10, 0x18, "f")]⟩) ∧
    s.content = firstLine ++ secondLine ∧
    ∀ full, PerfMap.new s.content = some full →
      resolveInPerfmap (some full) 0x12 = some (PerfMap.symbol "f") := by
  have hinstalled : (run step new firstCall).map Resolver.installed
      = some (some (some ⟨[(0x10, 0x18, "f")]⟩)) := by decide +kernel
  obtain ⟨t, ht, htm⟩ := Option.map_eq_some_iff.mp hinstalled
  have hcontent : ((run step new firstCall).bind fun t => run step t sameSecond).map
      Resolver.content = some (firstLine ++ secondLine) := by decide +kernel
  rw [ht, Option.bind_some] at hcontent
  obtain ⟨s, hs, hsc⟩ := Option.map_eq_some_iff.mp hcontent
  have hlined : ∀ e ∈ firstCall ++ sameSecond, e.Lined := by
    simp [firstCall, sameSecond, Event.Lined, WholeLines, firstLine, secondLine]
  obtain ⟨_, hnames⟩ := never_wrong ht hs hlined htm
  exact ⟨t, s, ht, hs, htm, hsc, fun full hfull => hnames full hfull 0x12 _ (by decide)⟩

/-- A name that is appended in two parts is cut in a map that was read between. -/
example : (run step new ([.append [0x31, 0x30, 0x20, 0x38, 0x20, 0x66] 1700000000100000000,
      .force 1700000000200000000] ++ List.replicate 7 (.advance 0 8192) ++ [.store 0,
      .append [0x6F, 0x6F, 0x0A] 1700000000900000000])).map (fun s =>
        (s.installed, PerfMap.new s.content))
    = some (some (some ⟨[(0x10, 0x18, "f")]⟩), some ⟨[(0x10, 0x18, "foo")]⟩) := by
  decide +kernel

end Pprof.Resolver
