/-
A write of the overflow array that fails.

`flush_buffer` empties the buffer and counts the flush before it writes.  When
the write fails, the entries of the buffer are nowhere: the file is too short
for what `flush_n` promises, and it stays too short, because every later flush
adds as many bytes as it promises.

An `Account` is an array with the entries that it has accepted since the last
clear that succeeded.

* `Level`, `level_of_calls` — the counters never tell more entries than were
  accepted, and while they tell as many the file does not have more bytes than
  they need;
* `Lost`, `Lost.pushAll` — after a failed write reading fails or yields too
  few, whatever is pushed later;
* `failed_flush_loses` — so no failed write goes without a loss.
-/
import Pprof.PushOrder

open ByteFile
open scoped List

namespace Pprof.TempFdArray

variable [Target] {T B : Type*}

/-- The number of entries that the two counters tell. -/
def told (a : TempFdArray T B) : ℕ := a.bufferIndex + BUFFER_LENGTH * a.flushN

/-- A call of one of the methods that write. -/
inductive Call (T : Type*) where
  | push (io : Io) (entry : T)
  | clear (io : Io)

/-- An array, and the entries it has accepted since the last clear that
succeeded. -/
structure Account (T B : Type*) where
  array : TempFdArray T B
  accepted : List T

variable [Layout T B]

def Account.call (s : Account T B) : Call T → Account T B
  | .push io entry =>
    match s.array.push io entry with
    | (.ok (), a) => ⟨a, s.accepted ++ [entry]⟩
    | (.error _, a) => ⟨a, s.accepted⟩
  | .clear io =>
    match s.array.clear io with
    | (.ok (), a) => ⟨a, []⟩
    | (.error _, a) => ⟨a, s.accepted⟩

/-- Reading yields exactly the entries that were accepted. -/
def Account.YieldsAccepted (s : Account T B) (io : Io) : Prop :=
  ∃ es, s.array.tryIter io = .ok es ∧ es ~ s.accepted

/-- The pushes of a list of entries, as calls. -/
def pushCalls (ps : List (Io × T)) : List (Call T) := ps.map fun p => .push p.1 p.2

/-! ### What the counters tell -/

theorem length_of_tryIter {a : TempFdArray T B} {io : Io} {es : List T}
    (h : a.tryIter io = .ok es) : es.length = a.told := by
  obtain ⟨_, hneeded, rfl⟩ := tryIter_eq_ok.mp h
  have hle := a.bufferIndex_le
  have hlen := a.buffer_length
  rw [List.length_append, length_readList, List.length_take, Nat.min_eq_left hneeded, needed,
    Nat.mul_div_cancel _ Layout.size_pos, buffered, List.length_take, told]
  omega

/-- A push answers `Ok` and counts its entry, unless its write fails. -/
theorem push_told (io : Io) (a : TempFdArray T B) (entry : T) :
    (a.writeFails io = false →
      (a.push io entry).1 = .ok () ∧ (a.push io entry).2.told = a.told + 1) ∧
    (a.writeFails io = true →
      (a.push io entry).1 = .error .os ∧ (a.push io entry).2.told = a.told) := by
  have hle := a.bufferIndex_le
  -- room in the buffer, a full buffer that is written, or one whose write fails
  obtain ⟨hroom, hp⟩ | ⟨hfull, hfits, hp⟩ | ⟨hfull, hfits, hp⟩ := a.push_cases io entry
  · rw [hp]
    refine ⟨fun _ => ⟨rfl, ?_⟩, fun hfails => ?_⟩
    · show a.bufferIndex + 1 + BUFFER_LENGTH * a.flushN = a.told + 1
      rw [told]
      omega
    · simp [writeFails, hroom] at hfails
  · rw [hp]
    refine ⟨fun _ => ⟨rfl, ?_⟩, fun hfails => ?_⟩
    · show 0 + 1 + BUFFER_LENGTH * (a.flushN + 1) = a.told + 1
      rw [told, Nat.mul_succ]
      omega
    · simp [writeFails, hfits] at hfails
  · rw [hp]
    refine ⟨fun hfails => ?_, fun _ => ⟨rfl, ?_⟩⟩
    · simp [writeFails, hfull, hfits] at hfails
    · show 0 + BUFFER_LENGTH * (a.flushN + 1) = a.told
      rw [told, Nat.mul_succ]
      omega

/-- What a push does to an account. -/
theorem Account.call_push (s : Account T B) (io : Io) (entry : T) :
    (s.call (.push io entry)).array = (s.array.push io entry).2 ∧
    (s.array.writeFails io = false →
      (s.call (.push io entry)).accepted.length = s.accepted.length + 1) ∧
    (s.array.writeFails io = true →
      (s.call (.push io entry)).accepted.length = s.accepted.length) := by
  obtain ⟨hok, herr⟩ := s.array.push_told io entry
  rw [call]
  cases hp : s.array.push io entry with
  | mk answer a =>
    rw [hp] at hok herr
    cases answer with
    | ok u =>
      refine ⟨rfl, fun _ => List.length_append, fun hfails => ?_⟩
      cases (herr hfails).1
    | error err =>
      refine ⟨rfl, fun hfails => ?_, fun _ => rfl⟩
      cases (hok hfails).1

/-- A push moves what the counters tell by as much as what was accepted, and
adds no surplus bytes to the file: too few, if its write fails. -/
theorem Account.call_push_moves (s : Account T B) (io : Io) (entry : T) :
    (s.call (.push io entry)).array.told + s.accepted.length
      = s.array.told + (s.call (.push io entry)).accepted.length ∧
    (s.array.file.AtEnd → (s.call (.push io entry)).array.file.AtEnd ∧
      s.array.needed + (s.call (.push io entry)).array.file.contents.length
        ≤ (s.call (.push io entry)).array.needed + s.array.file.contents.length ∧
      (s.array.writeFails io = true →
        s.array.needed + (s.call (.push io entry)).array.file.contents.length
          < (s.call (.push io entry)).array.needed + s.array.file.contents.length)) := by
  obtain ⟨harray, haccept, hreject⟩ := s.call_push io entry
  obtain ⟨hok, herr⟩ := s.array.push_told io entry
  rw [harray]
  -- a failed write asks for a buffer the file does not have, and accepts nothing
  cases hfails : s.array.writeFails io with
  | false =>
    have htold := (hok hfails).2
    have hlen := haccept hfails
    refine ⟨by omega, fun hend => ?_⟩
    obtain ⟨hend', hsame, _⟩ := push_lag hend io entry
    exact ⟨hend', (hsame hfails).ge, fun h => by cases h⟩
  | true =>
    have htold := (herr hfails).2
    have hlen := hreject hfails
    refine ⟨by omega, fun hend => ?_⟩
    obtain ⟨hend', _, hmore⟩ := push_lag hend io entry
    exact ⟨hend', (hmore hfails).le, fun _ => hmore hfails⟩

/-- What a clear does to an account. -/
theorem Account.call_clear (s : Account T B) (io : Io) :
    (io.clearsOk = true → s.call (.clear io) = ⟨(s.array.clear io).2, []⟩) ∧
    (io.clearsOk = false → s.call (.clear io) = ⟨(s.array.clear io).2, s.accepted⟩) := by
  rw [call]
  constructor
  · intro hio
    have hok := (s.array.clear_stores hio).1
    cases hc : s.array.clear io with
    | mk answer a =>
      rw [hc] at hok
      obtain rfl : answer = .ok () := hok
      rfl
  · intro hio
    have herr := s.array.clear_fails hio
    cases hc : s.array.clear io with
    | mk answer a =>
      rw [hc] at herr
      obtain rfl : answer = .error .os := herr
      rfl

/-- Nothing is left of an empty file, wherever a clear stops. -/
theorem clear_of_empty {a : TempFdArray T B} (hend : a.file.AtEnd) (hnil : a.file.contents = [])
    (io : Io) : (a.clear io).2.file.AtEnd ∧ (a.clear io).2.file.contents = [] := by
  rw [TempFdArray.clear]
  cases io.setLen with
  | false => exact ⟨hend, hnil⟩
  | true =>
    have hoffset : a.file.offset = 0 := by rw [hend, hnil, List.length_nil]
    cases io.seek with
    | false => exact ⟨hoffset.trans (by simp [File.setLen]), by simp [File.setLen]⟩
    | true => exact ⟨by simp [File.AtEnd, File.setLen, File.seek], by simp [File.setLen, File.seek]⟩

/-! ### Before a failed write -/

/-- The counters tell all accepted entries, over a file without surplus bytes;
or they tell too few, after a clear that failed. -/
def Account.Level (s : Account T B) : Prop :=
  (s.array.file.AtEnd ∧ s.array.file.contents.length ≤ s.array.needed ∧
    s.array.told = s.accepted.length) ∨ s.array.told < s.accepted.length

theorem level_new [Inhabited T] {a : TempFdArray T B} (h : new true = .ok a) :
    (⟨a, []⟩ : Account T B).Level := by
  obtain rfl := Except.ok.inj h
  refine .inl ⟨rfl, Nat.zero_le _, ?_⟩
  show 0 + BUFFER_LENGTH * 0 = 0
  omega

theorem Account.Level.push {s : Account T B} (h : s.Level) (io : Io) (entry : T) :
    (s.call (.push io entry)).Level := by
  obtain ⟨htold, hfile⟩ := s.call_push_moves io entry
  obtain ⟨hend, hle, heq⟩ | hlt := h
  · obtain ⟨hend', hlag, _⟩ := hfile hend
    exact .inl ⟨hend', by omega, by omega⟩
  · exact .inr (by omega)

theorem Account.Level.clear {s : Account T B} (h : s.Level) (io : Io) :
    (s.call (.clear io)).Level := by
  obtain ⟨hindex, hflush⟩ := s.array.clear_rewinds io
  have htold : (s.array.clear io).2.told = 0 := by rw [told, hindex, hflush, Nat.mul_zero]
  cases hio : io.clearsOk with
  | true =>
    obtain ⟨_, hstores, _⟩ := s.array.clear_stores hio
    rw [(s.call_clear io).1 hio]
    exact .inl ⟨hstores.atEnd, hstores.needed.ge, htold⟩
  | false =>
    rw [(s.call_clear io).2 hio]
    obtain ⟨hend, hle, heq⟩ | hlt := h
    · cases hlen : s.accepted.length with
      | succ n =>
        right
        show (s.array.clear io).2.told < s.accepted.length
        omega
      | zero =>
        -- nothing was accepted, so the file is empty, and stays so
        have hmul : BUFFER_LENGTH * s.array.flushN = 0 := by
          rw [told] at heq
          omega
        have hneeded : s.array.needed = 0 := by rw [needed, hmul, Nat.zero_mul]
        have hnil : s.array.file.contents = [] := List.eq_nil_of_length_eq_zero (by omega)
        obtain ⟨hend', hnil'⟩ := clear_of_empty hend hnil io
        refine .inl ⟨hend', ?_, htold.trans hlen.symm⟩
        show (s.array.clear io).2.file.contents.length ≤ _
        rw [hnil']
        exact Nat.zero_le _
    · right
      show (s.array.clear io).2.told < s.accepted.length
      omega

/-- After any calls an account is level. -/
theorem level_of_calls {s : Account T B} (h : s.Level) (calls : List (Call T)) :
    (calls.foldl Account.call s).Level := by
  induction calls generalizing s with
  | nil => exact h
  | cons c calls ih =>
    cases c with
    | push io entry => exact ih (h.push io entry)
    | clear io => exact ih (h.clear io)

/-! ### After it -/

/-- The file is too short, or the counters tell too few entries. -/
def Account.Lost (s : Account T B) : Prop :=
  (s.array.file.AtEnd ∧ s.array.file.contents.length < s.array.needed) ∨
    s.array.told < s.accepted.length

theorem Account.Level.lost {s : Account T B} (h : s.Level) {io : Io}
    (hfails : s.array.writeFails io = true) (entry : T) : (s.call (.push io entry)).Lost := by
  obtain ⟨htold, hfile⟩ := s.call_push_moves io entry
  obtain ⟨hend, hle, heq⟩ | hlt := h
  · obtain ⟨hend', _, hshort⟩ := hfile hend
    have hshort := hshort hfails
    exact .inl ⟨hend', by omega⟩
  · exact .inr (by omega)

theorem Account.Lost.push {s : Account T B} (h : s.Lost) (io : Io) (entry : T) :
    (s.call (.push io entry)).Lost := by
  obtain ⟨htold, hfile⟩ := s.call_push_moves io entry
  obtain ⟨hend, hshort⟩ | hlt := h
  · obtain ⟨hend', hlag, _⟩ := hfile hend
    exact .inl ⟨hend', by omega⟩
  · exact .inr (by omega)

theorem Account.Lost.pushAll {s : Account T B} (h : s.Lost) (ps : List (Io × T)) :
    ((pushCalls ps).foldl Account.call s).Lost := by
  induction ps generalizing s with
  | nil => exact h
  | cons p ps ih => exact ih (h.push p.1 p.2)

theorem Account.Lost.not_yieldsAccepted {s : Account T B} (h : s.Lost) (io : Io) :
    ¬ s.YieldsAccepted io := by
  rintro ⟨es, hes, hperm⟩
  obtain ⟨_, hshort⟩ | hlt := h
  · have hneeded := (tryIter_eq_ok.mp hes).2.1
    omega
  · have hlen := hperm.length_eq
    rw [length_of_tryIter hes] at hlen
    omega

/-- **Every failed flush loses accepted entries.**  In any state that calls of
`push` and `clear` lead to, with any failures: a push whose write fails returns
an error, and after it, whatever is pushed, reading does not yield exactly the
entries that were accepted. -/
theorem failed_flush_loses [Inhabited T] {a : TempFdArray T B} (hnew : new true = .ok a)
    (calls : List (Call T)) {io : Io}
    (hfails : (calls.foldl Account.call ⟨a, []⟩).array.writeFails io = true) (entry : T) :
    ((calls.foldl Account.call ⟨a, []⟩).array.push io entry).1 = .error .os ∧
    ∀ (ps : List (Io × T)) (io' : Io),
      ¬ ((pushCalls ps).foldl Account.call
        ((calls.foldl Account.call ⟨a, []⟩).call (.push io entry))).YieldsAccepted io' := by
  have hlevel := level_of_calls (level_new hnew) calls
  refine ⟨((push_told io _ entry).2 hfails).1, fun ps io' => ?_⟩
  exact ((hlevel.lost hfails entry).pushAll ps).not_yieldsAccepted io'

end Pprof.TempFdArray

/-! ### A full buffer that cannot be written -/

namespace Pprof.TempFdArray

local instance : Target := Target.linux

/-- A full buffer, of 992 bytes. -/
def fullBuffer : List (Call (Entry UInt64)) :=
  pushCalls ((List.range 62).map fun k => (Io.ok, ⟨UInt64.ofNat k, 1⟩))

/-- The device is full in the middle of an entry. -/
theorem failed_flush_loses_half :
    ∃ a : TempFdArray (Entry UInt64) UInt8, new true = .ok a ∧
      ((fullBuffer.foldl Account.call ⟨a, []⟩).array.push (Io.writing (.only 500)) ⟨62, 1⟩).1
        = .error .os ∧
      ¬ ((fullBuffer.foldl Account.call ⟨a, []⟩).call
        (.push (Io.writing (.only 500)) ⟨62, 1⟩)).YieldsAccepted Io.ok := by
  obtain ⟨a, ha⟩ : ∃ a : TempFdArray (Entry UInt64) UInt8, new true = .ok a := ⟨_, rfl⟩
  have hfails : (fullBuffer.foldl Account.call ⟨a, []⟩).array.writeFails
      (Io.writing (.only 500)) = true := by
    obtain rfl := Except.ok.inj ha
    decide +kernel
  obtain ⟨herr, hlost⟩ := failed_flush_loses ha fullBuffer hfails ⟨62, 1⟩
  have hlast := hlost [] Io.ok
  rw [pushCalls, List.map_nil, List.foldl_nil] at hlast
  exact ⟨a, ha, herr, hlast⟩

/-- All 62 entries were accepted, and none can be read: the file ends with four
of the sixteen bytes of the entry `31`. -/
theorem not_loses_nothing :
    ∃ a : TempFdArray (Entry UInt64) UInt8, new true = .ok a ∧
      (fullBuffer.foldl Account.call ⟨a, []⟩).array.writeFails (Io.writing (.only 500)) = true ∧
      ((fullBuffer.foldl Account.call ⟨a, []⟩).call
        (.push (Io.writing (.only 500)) ⟨62, 1⟩)).accepted
          = (List.range 62).map (fun k => ⟨UInt64.ofNat k, 1⟩) ∧
      ((fullBuffer.foldl Account.call ⟨a, []⟩).call
        (.push (Io.writing (.only 500)) ⟨62, 1⟩)).array.file.contents.drop 496
          = [31, 0, 0, 0] ∧
      ((fullBuffer.foldl Account.call ⟨a, []⟩).call
        (.push (Io.writing (.only 500)) ⟨62, 1⟩)).array.tryIter Io.ok
          = .error .unexpectedEof := by
  refine ⟨_, rfl, ?_, ?_, ?_, ?_⟩
  · decide +kernel
  · decide +kernel
  · decide +kernel
  · decide +kernel

end Pprof.TempFdArray
