/-
Records of a perf map, printed and read back.

A just-in-time compiler prints a record as `<hex start> <hex len> <name>` on a
line of its own.  `PerfMap::new` splits the line at white space and joins what
is left of it with single blanks, and adds the two numbers as `usize`s.

* `joined_eq_iff` — a name comes back unchanged when its only white space is
  single blanks;
* `PerfRecord.new_print` — what `PerfMap::new` stores, for any records;
* `roundTrips_iff` — when `find` answers for every address what the records
  say.
-/
import Pprof.Delimited
import Pprof.Utf8

namespace Pprof

open String (utf8EncodeChar)

/-! ### Names -/

/-- The only white space is single blanks. -/
def Plain (cs : List Char) : Prop :=
  (∀ c ∈ cs, isWhiteSpace c = true → c = ' ') ∧ cs.IsChain fun a b => ¬ (a = ' ' ∧ b = ' ')

/-- What `PerfMap::new` makes of a name. -/
def joined (cs : List Char) : List Char := [' '].intercalate (splitWhitespace cs)

/-- A word: not empty, and without white space. -/
def IsWord (cs : List Char) : Prop := cs ≠ [] ∧ ∀ c ∈ cs, isWhiteSpace c = false

theorem isWord_of_mem_splitWhitespace {cs word : List Char} (h : word ∈ splitWhitespace cs) :
    IsWord word := by
  obtain ⟨hmem, hne⟩ := List.mem_filter.mp h
  exact ⟨by simpa using hne, Delimited.not_mem_of_mem_splitOnP hmem⟩

theorem splitWhitespace_word {word : List Char} (h : IsWord word) :
    splitWhitespace word = [word] := by
  rw [splitWhitespace, List.splitOnP_eq_singleton h.2]
  simp [h.1]

theorem splitWhitespace_append {word : List Char} (h : IsWord word) {c : Char}
    (hc : isWhiteSpace c = true) (cs : List Char) :
    splitWhitespace (word ++ c :: cs) = word :: splitWhitespace cs := by
  rw [splitWhitespace, List.splitOnP_append_cons_of_forall_mem h.2 c hc, List.filter_cons_of_pos]
  · rfl
  · simp [h.1]

theorem IsWord.head {word : List Char} (h : IsWord word) :
    ∀ c ∈ word.head?, isWhiteSpace c = false :=
  fun c hc => h.2 c (List.mem_of_mem_head? hc)

theorem IsWord.plain {word : List Char} (h : IsWord word) : Plain word := by
  refine ⟨fun c hc hspace => ?_, (List.pairwise_of_forall_mem_list ?_).isChain⟩
  · rw [h.2 c hc] at hspace
    cases hspace
  · rintro a ha b _ ⟨rfl, _⟩
    cases h.2 ' ' ha

/-- Words with single blanks between them. -/
theorem plain_intercalate {words : List (List Char)} (h : ∀ word ∈ words, IsWord word) :
    Plain ([' '].intercalate words) ∧
      ∀ c ∈ ([' '].intercalate words).head?, isWhiteSpace c = false := by
  induction words with
  | nil => exact ⟨⟨List.forall_mem_nil _, List.isChain_nil⟩, nofun⟩
  | cons word words ih =>
    obtain ⟨hword, hwords⟩ := List.forall_mem_cons.mp h
    obtain ⟨hplain, hhead⟩ := ih hwords
    by_cases hnil : words = []
    · rw [hnil, List.intercalate_singleton]
      exact ⟨hword.plain, hword.head⟩
    · rw [List.intercalate_cons_of_ne_nil hnil, List.append_assoc]
      refine ⟨⟨fun c hc hspace => ?_, ?_⟩, fun c hc => ?_⟩
      · obtain hc | hc := List.mem_append.mp hc
        · exact hword.plain.1 c hc hspace
        · obtain rfl | hc := List.mem_cons.mp hc
          · rfl
          · exact hplain.1 c hc hspace
      · -- neither side of a blank is one
        rw [List.isChain_append, List.singleton_append, List.isChain_cons]
        refine ⟨hword.plain.2, ⟨?_, hplain.2⟩, ?_⟩
        · rintro c hc ⟨_, rfl⟩
          cases hhead ' ' hc
        · rintro c hc d _ ⟨rfl, _⟩
          cases hword.2 ' ' (List.mem_of_mem_getLast? hc)
      · rw [List.head?_append_of_ne_nil _ hword.1] at hc
        exact hword.head c hc

/-- The text does not start or end with white space. -/
structure Trimmed (cs : List Char) : Prop where
  head : ∀ c ∈ cs.head?, isWhiteSpace c = false
  last : ∀ c ∈ cs.getLast?, isWhiteSpace c = false

theorem trimmed_iff (cs : List Char) :
    (cs.head?.all (fun c => !isWhiteSpace c) && cs.getLast?.all fun c => !isWhiteSpace c) = true ↔
      Trimmed cs := by
  rw [Bool.and_eq_true, Option.all_eq_true, Option.all_eq_true]
  simp only [Bool.not_eq_true']
  exact ⟨fun h => ⟨h.1, h.2⟩, fun h => ⟨h.head, h.last⟩⟩

instance (cs : List Char) : Decidable (Trimmed cs) := decidable_of_iff _ (trimmed_iff cs)

theorem exists_word {cs : List Char} (hne : cs ≠ []) (h : Trimmed cs) :
    ∃ word rest, cs = word ++ rest ∧ IsWord word ∧ ∀ c ∈ rest.head?, isWhiteSpace c = true := by
  obtain ⟨c, cs, rfl⟩ := List.exists_cons_of_ne_nil hne
  refine ⟨_, _, (List.takeWhile_append_dropWhile (p := fun c => !isWhiteSpace c)).symm,
    ⟨?_, fun d hd => ?_⟩, fun d hd => ?_⟩
  · rw [List.takeWhile_cons_of_pos (by simp [h.head c rfl])]
    exact List.cons_ne_nil _ _
  · simpa using List.mem_takeWhile_imp hd
  · have hfirst := List.head?_dropWhile_not (fun c => !isWhiteSpace c) (c :: cs)
    rw [Option.mem_def.mp hd] at hfirst
    simpa using hfirst

/-- What comes after the first blank is of the same kind. -/
theorem rest_of_plain {word rest : List Char} (hplain : Plain (word ++ ' ' :: rest))
    (htrimmed : Trimmed (word ++ ' ' :: rest)) : rest ≠ [] ∧ Plain rest ∧ Trimmed rest := by
  have hchain : (' ' :: rest).IsChain fun a b => ¬ (a = ' ' ∧ b = ' ') :=
    (List.isChain_append.mp hplain.2).2.1
  have hspace : ∀ c ∈ rest, isWhiteSpace c = true → c = ' ' :=
    fun c hc => hplain.1 c (List.mem_append_right word (List.mem_cons_of_mem _ hc))
  have hne : rest ≠ [] := by
    rintro rfl
    cases htrimmed.last ' ' (by simp)
  refine ⟨hne, ⟨hspace, hchain.tail⟩, fun c hc => ?_, fun c hc => htrimmed.last c ?_⟩
  · by_contra hwhite
    have hblank := hspace c (List.mem_of_mem_head? hc) (Bool.not_eq_false _ ▸ hwhite)
    exact (List.isChain_cons.mp hchain).1 c hc ⟨rfl, hblank⟩
  · rw [List.getLast?_append_of_ne_nil _ (List.cons_ne_nil _ _),
      List.getLast?_cons_of_ne_nil hne]
    exact hc

theorem joined_of_plain {cs : List Char} (hplain : Plain cs) (htrimmed : Trimmed cs) :
    joined cs = cs := by
  -- the first word, then what comes after the blank behind it
  induction hn : cs.length using Nat.strong_induction_on generalizing cs with
  | _ n ih =>
    by_cases hnil : cs = []
    · rw [hnil]
      rfl
    · obtain ⟨word, rest, rfl, hword, hrest⟩ := exists_word hnil htrimmed
      cases rest with
      | nil =>
        rw [List.append_nil, joined, splitWhitespace_word hword, List.intercalate_singleton]
      | cons c rest =>
        have hc : isWhiteSpace c = true := hrest c rfl
        obtain rfl : c = ' ' := hplain.1 c (by simp) hc
        obtain ⟨hne, hplain', htrimmed'⟩ := rest_of_plain hplain htrimmed
        have hlt : rest.length < n := by
          rw [← hn, List.length_append, List.length_cons]
          omega
        have hjoined := ih rest.length hlt hplain' htrimmed' rfl
        have hwords : splitWhitespace rest ≠ [] := by
          intro hnil
          rw [joined, hnil] at hjoined
          exact hne hjoined.symm
        rw [joined, splitWhitespace_append hword hc, List.intercalate_cons_of_ne_nil hwords,
          ← joined, hjoined, List.append_assoc]
        rfl

/-- A name comes back unchanged exactly when its only white space is single
blanks. -/
theorem joined_eq_iff {cs : List Char} (h : Trimmed cs) : joined cs = cs ↔ Plain cs := by
  constructor
  · intro hjoined
    rw [← hjoined]
    exact (plain_intercalate fun word hword => isWord_of_mem_splitWhitespace hword).1
  · intro hplain
    exact joined_of_plain hplain h

/-! ### Numbers -/

theorem toHexDigit_digitChar : ∀ d < 16, toHexDigit (Nat.digitChar d) = some d := by
  decide +kernel

theorem isWhiteSpace_digitChar : ∀ d < 16, isWhiteSpace (Nat.digitChar d) = false := by
  decide +kernel

theorem pushHexDigit_digitChar {n d : ℕ} (hd : d < 16) (h : n * 16 + d < 2 ^ 64) :
    pushHexDigit n (Nat.digitChar d) = some (n * 16 + d) := by
  rw [pushHexDigit, toHexDigit_digitChar d hd]
  exact if_pos h

/-- A printed number is read digit by digit. -/
theorem foldlM_toDigits {n : ℕ} (h : n < 2 ^ 64) :
    (Nat.toDigits 16 n).foldlM pushHexDigit 0 = some n := by
  induction n using Nat.strong_induction_on with
  | _ n ih =>
    rw [Nat.toDigits_eq_if (by decide)]
    split
    · rename_i hlt
      rw [List.foldlM_cons, pushHexDigit_digitChar hlt (by omega), Nat.zero_mul, Nat.zero_add]
      rfl
    · rw [List.foldlM_append, ih (n / 16) (by omega) (by omega)]
      show (List.foldlM pushHexDigit (n / 16) [Nat.digitChar (n % 16)]) = _
      rw [List.foldlM_cons, pushHexDigit_digitChar (Nat.mod_lt n (by decide)) (by omega)]
      show some (n / 16 * 16 + n % 16) = some n
      rw [Nat.div_add_mod' n 16]

theorem mem_toDigits {n : ℕ} {c : Char} (h : c ∈ Nat.toDigits 16 n) :
    ∃ d < 16, c = Nat.digitChar d := by
  induction n using Nat.strong_induction_on with
  | _ n ih =>
    rw [Nat.toDigits_eq_if (by decide)] at h
    split at h
    · rename_i hlt
      exact ⟨n, hlt, List.mem_singleton.mp h⟩
    · obtain h | h := List.mem_append.mp h
      · exact ih (n / 16) (by omega) h
      · exact ⟨n % 16, Nat.mod_lt n (by decide), List.mem_singleton.mp h⟩

theorem isWord_toDigits (n : ℕ) : IsWord (Nat.toDigits 16 n) := by
  refine ⟨Nat.toDigits_ne_nil, fun c hc => ?_⟩
  obtain ⟨d, hd, rfl⟩ := mem_toDigits hc
  exact isWhiteSpace_digitChar d hd

theorem fromHex_toDigits {n : ℕ} (h : n < 2 ^ 64) : fromHex (Nat.toDigits 16 n) = some n := by
  have hplus : (Nat.toDigits 16 n).head? ≠ some '+' := by
    intro hhead
    obtain ⟨d, hd, hc⟩ := mem_toDigits (List.mem_of_mem_head? hhead)
    have hdigit := toHexDigit_digitChar d hd
    rw [← hc] at hdigit
    cases hdigit
  have hempty : (Nat.toDigits 16 n).isEmpty = false :=
    List.isEmpty_eq_false_iff.mpr Nat.toDigits_ne_nil
  simp only [fromHex, if_neg hplus, hempty, Bool.false_eq_true, if_false]
  exact foldlM_toDigits h

/-! ### Lines -/

theorem LineReader.readBytes_line {bs : List UInt8} (h : 0x0A ∉ bs) (r : LineReader) :
    r.readBytes bs = some { r with pending := r.pending ++ bs } := by
  induction bs generalizing r with
  | nil =>
    rw [List.append_nil]
    rfl
  | cons b bs ih =>
    rw [List.mem_cons, not_or] at h
    have hbyte : r.readByte b = some { r with pending := r.pending ++ [b] } := by
      rw [LineReader.readByte, if_neg (Ne.symm h.1)]
    rw [LineReader.readBytes, List.foldlM_cons, hbyte]
    refine (ih h.2 _).trans ?_
    rw [List.append_assoc]
    rfl

/-- A line feed or a carriage return of an encoded text is one of the text. -/
theorem mem_of_mem_encode {cs : List Char} {b : UInt8} (hb : b.toNat < 128)
    (h : b ∈ cs.flatMap utf8EncodeChar) : Char.ofNat b.toNat ∈ cs := by
  obtain ⟨c, hc, hmem⟩ := List.mem_flatMap.mp h
  rw [← toNat_of_mem_encode hmem hb, Char.ofNat_toNat]
  exact hc

/-! ### Records -/

/-- A record, as a compiler knows it. -/
structure PerfRecord where
  start : ℕ
  len : ℕ
  name : String
  start_lt : start < 2 ^ 64
  len_lt : len < 2 ^ 64
  not_line_feed : '\n' ∉ name.toList
  trimmed : Trimmed name.toList

namespace PerfRecord

/-- The text of its line. -/
def line (r : PerfRecord) : List Char :=
  Nat.toDigits 16 r.start ++ ' ' :: (Nat.toDigits 16 r.len ++ ' ' :: r.name.toList)

/-- The bytes it is printed as. -/
def print (r : PerfRecord) : List UInt8 := r.line.flatMap utf8EncodeChar ++ [0x0A]

/-- The range that `PerfMap::new` stores for it. -/
def range (r : PerfRecord) : PerfRange :=
  (r.start, (r.start + r.len) % 2 ^ 64, String.ofList (joined r.name.toList))

/-- The address is in the record. -/
def covers (a : ℕ) (r : PerfRecord) : Bool := r.start ≤ a && a - r.start < r.len

theorem not_line_feed_line (r : PerfRecord) : '\n' ∉ r.line := by
  have hdigits : ∀ n, '\n' ∉ Nat.toDigits 16 n := by
    intro n hmem
    cases (isWord_toDigits n).2 '\n' hmem
  intro hmem
  obtain hmem | hmem := List.mem_append.mp hmem
  · exact hdigits _ hmem
  · obtain hmem | hmem := List.mem_cons.mp hmem
    · cases hmem
    · obtain hmem | hmem := List.mem_append.mp hmem
      · exact hdigits _ hmem
      · obtain hmem | hmem := List.mem_cons.mp hmem
        · cases hmem
        · exact r.not_line_feed hmem

/-- The line does not end with a carriage return. -/
theorem getLast?_line (r : PerfRecord) : (r.line.flatMap utf8EncodeChar).getLast? ≠ some 0x0D := by
  -- the line ends with the last character of the name, or with the blank before it
  have hlast : r.line.getLast? = some (r.name.toList.getLast?.getD ' ') := by
    rw [line, List.getLast?_append_of_ne_nil _ (List.cons_ne_nil _ _),
      List.getLast?_cons_of_ne_nil (by simp),
      List.getLast?_append_of_ne_nil _ (List.cons_ne_nil _ _), List.getLast?_cons]
  obtain ⟨front, hline⟩ := List.getLast?_eq_some_iff.mp hlast
  intro hreturn
  rw [hline, List.flatMap_append, List.flatMap_singleton,
    List.getLast?_append_of_ne_nil _ String.utf8EncodeChar_ne_nil] at hreturn
  have hchar := toNat_of_mem_encode (List.mem_of_getLast? hreturn) (by decide)
  cases hname : r.name.toList.getLast? with
  | none =>
    rw [hname] at hchar
    cases hchar
  | some c =>
    rw [hname] at hchar
    have hwhite := r.trimmed.last c hname
    obtain rfl : c = '\r' := Char.toNat_inj.mp hchar
    cases hwhite

theorem perfRange_line (r : PerfRecord) :
    perfRange (r.line.flatMap utf8EncodeChar) = some r.range := by
  have hsplit : splitWhitespace r.line
      = Nat.toDigits 16 r.start :: Nat.toDigits 16 r.len :: splitWhitespace r.name.toList := by
    rw [line, splitWhitespace_append (isWord_toDigits _) rfl,
      splitWhitespace_append (isWord_toDigits _) rfl]
  rw [perfRange, fromUtf8_encode, Option.map_some, hsplit]
  simp only [fromHex_toDigits r.start_lt, fromHex_toDigits r.len_lt]
  rfl

theorem readBytes_print (r : PerfRecord) (ranges : List PerfRange) :
    LineReader.readBytes ⟨[], ranges⟩ r.print = some ⟨[], ranges ++ [r.range]⟩ := by
  have hfeed : 0x0A ∉ r.line.flatMap utf8EncodeChar :=
    fun hmem => r.not_line_feed_line (mem_of_mem_encode (by decide) hmem)
  rw [print, LineReader.readBytes_append, LineReader.readBytes_line hfeed, Option.bind_some,
    List.nil_append]
  show (LineReader.readByte _ 0x0A).bind _ = _
  rw [LineReader.readByte, if_pos rfl, if_neg r.getLast?_line, LineReader.endLine,
    r.perfRange_line]
  rfl

/-- Every printed record is stored, with a sum that may wrap and a name that is
split and joined. -/
theorem new_print (records : List PerfRecord) :
    PerfMap.new (records.flatMap print) = some ⟨records.map range⟩ := by
  have hread : ∀ ranges, LineReader.readBytes ⟨[], ranges⟩ (records.flatMap print)
      = some ⟨[], ranges ++ records.map range⟩ := by
    induction records with
    | nil =>
      intro ranges
      rw [List.map_nil, List.append_nil]
      rfl
    | cons r records ih =>
      intro ranges
      rw [List.flatMap_cons, LineReader.readBytes_append, r.readBytes_print, Option.bind_some, ih,
        List.append_assoc]
      rfl
  rw [PerfMap.new_eq_some (hread []) rfl]
  rfl

/-- Where no sum wraps, `find` looks for the first record around the address. -/
theorem find_map_range {records : List PerfRecord}
    (h : ∀ r ∈ records, r.start + r.len < 2 ^ 64) (a : ℕ) :
    PerfMap.find ⟨records.map range⟩ a
      = (records.find? (covers a)).map fun r => String.ofList (joined r.name.toList) := by
  rw [PerfMap.find]
  induction records with
  | nil => rfl
  | cons r records ih =>
    obtain ⟨hr, hrecords⟩ := List.forall_mem_cons.mp h
    have hcovers : (r.range.1 ≤ a && a < r.range.2.1) = covers a r := by
      show (decide (r.start ≤ a) && decide (a < (r.start + r.len) % 2 ^ 64)) = _
      rw [Nat.mod_eq_of_lt hr, covers, Bool.eq_iff_iff]
      simp only [Bool.and_eq_true, decide_eq_true_eq]
      omega
    rw [List.map_cons, List.find?_cons, List.find?_cons, hcovers]
    cases covers a r with
    | true => rfl
    | false => exact ih hrecords

/-- `PerfMap::new` and `find` give back the records: no sum overflows, and every
address finds the name of the first record around it. -/
def RoundTrips (records : List PerfRecord) : Prop :=
  ∃ m, PerfMap.new (records.flatMap print) = some m ∧
    (m.ranges.map fun range => (range.1, range.2.1))
      = records.map (fun r => (r.start, r.start + r.len)) ∧
    ∀ a < 2 ^ 64, m.find a = (records.find? (covers a)).map name

/-- **When a perf map says what was printed**: if and only if no record ends
behind the last address and every record that an address finds has only single
blanks for white space in its name. -/
theorem roundTrips_iff (records : List PerfRecord) :
    RoundTrips records ↔ (∀ r ∈ records, r.start + r.len < 2 ^ 64) ∧
      ∀ a < 2 ^ 64, ∀ r, records.find? (covers a) = some r → Plain r.name.toList := by
  constructor
  · rintro ⟨m, hm, hbounds, hfind⟩
    obtain rfl := Option.some.inj ((new_print records).symm.trans hm)
    -- a bound that was reduced mod 2^64 is below it
    have hfits : ∀ r ∈ records, r.start + r.len < 2 ^ 64 := by
      intro r hr
      rw [List.map_map, List.map_inj_left] at hbounds
      have hsum : (r.start + r.len) % 2 ^ 64 = r.start + r.len :=
        congrArg Prod.snd (hbounds r hr)
      rw [← hsum]
      exact Nat.mod_lt _ (by decide)
    refine ⟨hfits, fun a ha r hr => ?_⟩
    -- the printed name comes back with its white space joined, so it had none to join
    have hname := hfind a ha
    rw [find_map_range hfits, hr] at hname
    have hlist := congrArg String.toList (Option.some.inj hname)
    rw [String.toList_ofList] at hlist
    exact (joined_eq_iff r.trimmed).mp hlist
  · rintro ⟨hfits, hplain⟩
    refine ⟨_, new_print records, ?_, fun a ha => ?_⟩
    · rw [List.map_map]
      refine List.map_congr_left fun r hr => ?_
      show (r.start, (r.start + r.len) % 2 ^ 64) = _
      rw [Nat.mod_eq_of_lt (hfits r hr)]
    · rw [find_map_range hfits]
      cases hfind : records.find? (covers a) with
      | none => rfl
      | some r =>
        have hjoined := (joined_eq_iff r.trimmed).mpr (hplain a ha r hfind)
        rw [Option.map_some, Option.map_some, hjoined, String.ofList_toList]

end PerfRecord

end Pprof

/-! ### A name with two blanks, and the last addresses -/

namespace Pprof.Given

/-- `a  b` in sixteen bytes. -/
def twoBlanks : PerfRecord where
  start := 0x1000
  len := 0x10
  name := "a  b"
  start_lt := by decide
  len_lt := by decide
  not_line_feed := by decide +kernel
  trimmed := by decide +kernel

/-- `f` in the last sixteen bytes. -/
def lastAddresses : PerfRecord where
  start := 0xFFFFFFFFFFFFFFF0
  len := 0x10
  name := "f"
  start_lt := by decide
  len_lt := by decide
  not_line_feed := by decide +kernel
  trimmed := by decide +kernel

end Pprof.Given

namespace Pprof.PerfRecord

open Given

/-- The name loses a blank; the sum wraps to zero, and nothing is found. -/
theorem not_roundTrips :
    (PerfMap.new twoBlanks.print).map (fun m => m.find 0x1008) = some (some "a b") ∧
    ¬ RoundTrips [twoBlanks] ∧
    (PerfMap.new lastAddresses.print).map (fun m => m.find 0xFFFFFFFFFFFFFFF8) = some none ∧
    ¬ RoundTrips [lastAddresses] := by
  refine ⟨by decide +kernel, ?_, by decide +kernel, ?_⟩
  · rintro ⟨m, hm, _, hfind⟩
    obtain rfl := Option.some.inj ((new_print _).symm.trans hm)
    exact absurd (hfind 0x1008 (by decide)) (by decide +kernel)
  · rintro ⟨m, hm, hbounds, _⟩
    obtain rfl := Option.some.inj ((new_print _).symm.trans hm)
    exact absurd hbounds (by decide +kernel)

end Pprof.PerfRecord
