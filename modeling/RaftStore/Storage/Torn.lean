import RaftStore.Storage.Reopening
import Mathlib.Data.List.DropRight

namespace RaftStore
namespace Storage

open Collections Systems

/-!
# Cut lines

A crash inside an append leaves a part of a line at the end of the file.  The next
opening reads that part like any other line, and the next append goes on right
behind it.  The first decides what a torn write shows, the second what becomes of
the changes that are acknowledged after it.
-/

/-! ## A cut last line -/

/-- What is in the file when a crash cuts an append: as many bytes as had been
moved when a flush fails. -/
def Wal.cut (wal : Wal) (entry : WalEntry) (moved : Nat) : ByteArray :=
  ({ wal with faults := [some (.flush moved)] }.append entry).1.file

theorem Wal.cut_eq {wal : Wal} (buffer : wal.buffer = ByteArray.empty) (entry : WalEntry)
    (moved : Nat) :
    wal.cut entry moved = wal.file ++ (serializeEntry entry).toByteArray.extract 0 moved := by
  change wal.file ++ (wal.buffer ++ (serializeEntry entry).toByteArray).extract 0 moved = _
  rw [buffer, ByteArray.empty_append]

namespace Change

/-- The change is of texts without delimiters and line ends. -/
def Clean : Change -> Prop
  | .put key value => CleanText key ∧ CleanText value
  | .delete key => CleanText key

instance : (change : Change) -> Decidable change.Clean
  | .put _ _ => inferInstanceAs (Decidable (_ ∧ _))
  | .delete _ => inferInstanceAs (Decidable (CleanText _))

/-- What stands on the line of a change in front of its last field. -/
def header : Change -> String
  | .put key _ => "PUT|" ++ key ++ "|"
  | .delete _ => "DELETE|"

/-- The last field of the line of a change. -/
def field : Change -> String
  | .put _ value => value
  | .delete key => key

/-- The change that is read when only a part of the last field is there. -/
def withField (part : String) : Change -> Change
  | .put key _ => .put key part
  | .delete _ => .delete part

/-- The change changes nothing. -/
def Idle (contents : String -> Option String) : Change -> Prop
  | .put key value => contents key = some value
  | .delete key => contents key = none

/-- A crash after so many bytes of the line does no harm: they are whole characters,
and if they reach the last field of the line, all of the field was written, or the
change with the written part of it changes nothing. -/
def Survives (contents : String -> Option String) (change : Change) (moved : Nat) : Prop :=
  Exists fun written : String =>
    written.toByteArray = (serializeEntry change.entry).toByteArray.extract 0 moved ∧
    forall part, written = change.header ++ part ->
      part = change.field ∨ part = change.field ++ "\n" ∨ (change.withField part).Idle contents

variable {change : Change}

/-- There is at most one text of the written bytes. -/
theorem survives_iff {contents : String -> Option String} {moved : Nat} {written : String}
    (bytes : (serializeEntry change.entry).toByteArray.extract 0 moved = written.toByteArray) :
    change.Survives contents moved <-> forall part, written = change.header ++ part ->
      part = change.field ∨ part = change.field ++ "\n" ∨
        (change.withField part).Idle contents := by
  constructor
  · rintro ⟨other, same, harmless⟩
    rw [← String.toByteArray_inj.mp (same.trans bytes)]
    exact harmless
  · exact fun harmless => ⟨written, bytes.symm, harmless⟩

theorem Clean.recoverable (clean : change.Clean) : change.Recoverable := by
  cases change with
  | put key value =>
      refine ⟨⟨clean.1.1, clean.1.2.1⟩, clean.2.1, clean.2.2.1, fun last => ?_⟩
      exact clean.2.2.2 (List.mem_of_getLast? last)
  | delete key => exact ⟨clean.2.1, fun last => clean.2.2 (List.mem_of_getLast? last)⟩

theorem serializeEntry_eq (change : Change) :
    serializeEntry change.entry = change.header ++ change.field ++ "\n" := by
  cases change <;> simp [serializeEntry, entry, header, field]

end Change

/-- A part of a text ends in front of a given place or behind it. -/
theorem prefix_append_cases {written front back : List Char} (begins : written <+: front ++ back) :
    (written <+: front ∧ written ≠ front) ∨
      Exists fun part => written = front ++ part ∧ part <+: back := by
  by_cases whole : written = front
  · exact Or.inr ⟨[], by rw [whole, List.append_nil], List.nil_prefix⟩
  · rcases List.prefix_or_prefix_of_prefix begins (List.prefix_append front back) with
      shorter | ⟨part, rfl⟩
    · exact Or.inl ⟨shorter, whole⟩
    · exact Or.inr ⟨part, rfl, (List.prefix_append_right_inj front).mp begins⟩

theorem prefix_of_proper {written front : List Char} {last : Char}
    (begins : written <+: front ++ [last]) (proper : written ≠ front ++ [last]) :
    written <+: front :=
  (List.prefix_concat_iff.mp begins).resolve_left proper

theorem parseLine_of_notMem {line : List Char} (plain : '|' ∉ line) : parseLine line = none := by
  unfold parseLine
  rw [splitOn_of_notMem plain]

namespace Change

variable {change : Change} {written : List Char}

/-- In front of the last field there is no entry yet. -/
theorem Clean.parseLine_header (clean : change.Clean) (begins : written <+: change.header.toList)
    (proper : written ≠ change.header.toList) : parseLine written = none := by
  cases change with
  | put key value =>
      have spelled : (header (.put key value)).toList = "PUT|".toList ++ key.toList ++ ['|'] := by
        simp [header]
      rw [spelled] at begins proper
      rcases prefix_append_cases (prefix_of_proper begins proper) with
        ⟨inside, different⟩ | ⟨part, rfl, within⟩
      · have plain : written <+: "PUT".toList := prefix_of_proper inside different
        exact parseLine_of_notMem fun listed => by simpa using plain.subset listed
      · have plain : '|' ∉ part := fun listed => clean.1.1 (within.subset listed)
        change parseLine ("PUT".toList ++ '|' :: part) = none
        unfold parseLine
        rw [splitOn_append_cons (by decide), splitOn_of_notMem plain]
        rfl
  | delete key =>
      have spelled : (header (.delete key)).toList = "DELETE".toList ++ ['|'] := by
        simp [header]
      rw [spelled] at begins proper
      have plain := prefix_of_proper begins proper
      exact parseLine_of_notMem fun listed => by simpa using plain.subset listed

/-- From the last field on, the line reads as a change with a part of it. -/
theorem Clean.parseLine_field (clean : change.Clean) {part : String}
    (begins : part.toList <+: change.field.toList) :
    parseLine (change.header ++ part).toList = some (change.withField part).entry := by
  cases change with
  | put key value =>
      have plain : '|' ∉ part.toList := fun listed => clean.2.1 (begins.subset listed)
      have spelled : (header (.put key value) ++ part).toList = lineOf (entry (.put key part)) := by
        simp [header, lineOf, entry]
      rw [spelled, parseLine_put clean.1.1 plain]
      rfl
  | delete key =>
      have plain : '|' ∉ part.toList := fun listed => clean.1 (begins.subset listed)
      have spelled : (header (.delete key) ++ part).toList = lineOf (entry (.delete part)) := by
        simp [header, lineOf, entry]
      rw [spelled, parseLine_delete, if_neg plain]
      rfl

theorem lineOf_entry (change : Change) :
    lineOf change.entry = (change.header ++ change.field).toList := by
  cases change <;> simp [lineOf, entry, header, field]

theorem withField_field (change : Change) : change.withField change.field = change := by
  cases change <;> rfl

theorem Clean.feed_notMem (clean : change.Clean) :
    '\n' ∉ change.header.toList ∧ '\n' ∉ change.field.toList := by
  cases change with
  | put key value => exact ⟨by simp [header, clean.1.2.1], clean.2.2.1⟩
  | delete key => exact ⟨by simp [header], clean.2.1⟩

/-- What the written part of a line holds: no entry in front of the last field, and
from there on the change with the written part of the field. -/
theorem Clean.entriesOf_written (clean : change.Clean) {written : String}
    (begins : written.toList <+: (serializeEntry change.entry).toList) :
    ((forall part, written ≠ change.header ++ part) ∧ entriesOf written.toList = []) ∨
    (written = change.header ++ (change.field ++ "\n") ∧
      entriesOf written.toList = [change.entry]) ∨
    Exists fun part => written = change.header ++ part ∧ part.toList <+: change.field.toList ∧
      entriesOf written.toList = [(change.withField part).entry] := by
  have spelled : (serializeEntry change.entry).toList =
      change.header.toList ++ (change.field.toList ++ ['\n']) := by
    simp [serializeEntry_eq]
  rw [spelled] at begins
  rcases prefix_append_cases begins with ⟨inside, proper⟩ | ⟨rest, equal, within⟩
  · refine Or.inl ⟨?_, ?_⟩
    · rintro part rfl
      rw [String.toList_append] at inside proper
      exact proper (inside.eq_of_length_le (by simp))
    · rw [entriesOf_unfinished fun listed => clean.feed_notMem.1 (inside.subset listed),
        clean.parseLine_header inside proper]
      rfl
  · have whole : written = change.header ++ String.ofList rest := by
      rw [← String.ofList_toList (s := written), equal, String.ofList_append, String.ofList_toList]
    rcases List.prefix_concat_iff.mp within with all | shorter
    · refine Or.inr (Or.inl ⟨?_, ?_⟩)
      · rw [whole, all, String.ofList_append, String.ofList_toList]
      · have alone : entriesOf (lineOf change.entry ++ ['\n']) = _ :=
          clean.recoverable.entriesOf_behind List.not_mem_nil
        rw [equal, all, ← List.append_assoc, ← String.toList_append, ← lineOf_entry, alone,
          List.nil_append, lineOf_entry, clean.parseLine_field List.prefix_rfl, withField_field]
        rfl
    · refine Or.inr (Or.inr ⟨String.ofList rest, whole, by simpa using shorter, ?_⟩)
      rw [entriesOf_unfinished, whole, clean.parseLine_field (by simpa using shorter)]
      · rfl
      · rw [equal, List.mem_append]
        rintro (front | back)
        · exact clean.feed_notMem.1 front
        · exact clean.feed_notMem.2 (shorter.subset back)

end Change

/-! ## Decoding -/

/-- Bytes in front of other bytes of a text that are a text themselves are a part
of it. -/
theorem prefix_of_toByteArray {front whole : String} {bytes : ByteArray}
    (equal : front.toByteArray ++ bytes = whole.toByteArray) : front.toList <+: whole.toList := by
  rw [← String.utf8Encode_toList, ← String.utf8Encode_toList] at equal
  exact List.isPrefix_of_utf8Encode_append_eq_utf8Encode bytes equal

/-- The bytes of a text up to a place that are a text themselves. -/
theorem prefix_of_extract {front whole : String} {moved : Nat}
    (bytes : whole.toByteArray.extract 0 moved = front.toByteArray) :
    front.toList <+: whole.toList := by
  have rest : front.toByteArray ++ whole.toByteArray.extract moved whole.toByteArray.size =
      whole.toByteArray := by
    rw [← bytes, ByteArray.extract_append_extract, Nat.zero_min]
    ext1
    simp
  exact prefix_of_toByteArray rest

/-- Behind a text, bytes are decoded by themselves. -/
theorem fromUTF8?_append (text : String) (bytes : ByteArray) :
    String.fromUTF8? (text.toByteArray ++ bytes) = (String.fromUTF8? bytes).map (text ++ ·) := by
  ext whole
  rw [fromUTF8?_eq_some, Option.map_eq_some_iff]
  constructor
  · intro equal
    rcases prefix_of_toByteArray equal with ⟨rest, characters⟩
    have parts : text ++ String.ofList rest = whole := by
      rw [← String.ofList_toList (s := whole), ← characters, String.ofList_append,
        String.ofList_toList]
    refine ⟨String.ofList rest, fromUTF8?_eq_some.mpr ?_, parts⟩
    rw [← parts, String.toByteArray_append, ByteArray.append_right_inj] at equal
    exact equal
  · rintro ⟨written, decoded, rfl⟩
    rw [fromUTF8?_eq_some.mp decoded, String.toByteArray_append]

/-- A file that is not a text does not open. -/
theorem StorageEngine.new_of_undecodable {file : ByteArray}
    (undecodable : String.fromUTF8? file = none) (faults : List (Option Fault)) :
    StorageEngine.new file faults = .error .invalidData := by
  have failed : (Wal.new file faults).replay = .error .invalidData := by
    unfold Wal.replay
    rw [show (Wal.new file faults).file = file from rfl, undecodable]
  simp only [StorageEngine.new]
  rw [failed]
  rfl

/-- What opening a file with some more bytes behind a finished text finds: nothing
if they are not whole characters, and otherwise the entries of both. -/
theorem Restores.new_append {file : ByteArray} {changes : List Change} {text : List Char}
    (restores : Restores file changes text) (bytes : ByteArray) (faults : List (Option Fault)) :
    (String.fromUTF8? bytes = none ∧ StorageEngine.new (file ++ bytes) faults = .error .invalidData) ∨
    Exists fun written : String => bytes = written.toByteArray ∧
      StorageEngine.new (file ++ bytes) faults = .ok ⟨Wal.new (file ++ bytes) faults,
        (entriesOf written.toList).foldl StorageEngine.recover
          ((entriesOf text).foldl StorageEngine.recover Memtable.new)⟩ := by
  have decoded := fromUTF8?_append (String.ofList text) bytes
  rw [← restores.file] at decoded
  cases found : String.fromUTF8? bytes with
  | none =>
      rw [found] at decoded
      exact Or.inl ⟨rfl, StorageEngine.new_of_undecodable decoded faults⟩
  | some written =>
      refine Or.inr ⟨written, fromUTF8?_eq_some.mp found, ?_⟩
      rw [found] at decoded
      have replayed : (Wal.new (file ++ bytes) faults).replay =
          .ok (entriesOf text ++ entriesOf written.toList) := by
        rw [Wal.replay_of_text (fromUTF8?_eq_some.mp decoded), parse, String.toList_append,
          String.toList_ofList, ← restores.finished.entriesOf_append]
        rfl
      rw [StorageEngine.new_of_replay replayed, List.foldl_append]

section Torn

variable {history : List Turn} {engine : StorageEngine} {change : Change}

/-- A deed whose change, if it makes one, is clean. -/
def Deed.Clean (_ : StorageEngine) : Deed -> Prop
  | .change made => made.Clean
  | .reopen _ => True

instance (engine : StorageEngine) : (deed : Deed) -> Decidable (deed.Clean engine)
  | .change made => inferInstanceAs (Decidable made.Clean)
  | .reopen _ => inferInstanceAs (Decidable True)

theorem Deed.Clean.recoverable {deed : Deed} (clean : deed.Clean engine) :
    deed.Recoverable engine := by
  cases deed with
  | change made => exact Change.Clean.recoverable clean
  | reopen faults => trivial

/-- At every key, a change to what changes nothing shows the old value, and a
change of the last field shows the old or the new value only then or if the field
is the same. -/
theorem valueAt_withField_iff (change : Change) (changes : List Change) (part : String) :
    (forall key, valueAt (change.withField part :: changes) key = valueAt changes key ∨
      valueAt (change.withField part :: changes) key = valueAt (change :: changes) key) <->
    part = change.field ∨ (change.withField part).Idle (valueAt changes) := by
  constructor
  · intro agree
    cases change with
    | put key value =>
        rcases agree key with old | new
        · simp only [Change.withField, valueAt, if_true] at old
          exact Or.inr old.symm
        · simp only [Change.withField, valueAt, if_true, Option.some.injEq] at new
          exact Or.inl new
    | delete key =>
        by_cases same : part = key
        · exact Or.inl same
        · rcases agree part with old | new
          · simp only [Change.withField, valueAt, if_true] at old
            exact Or.inr old.symm
          · simp only [Change.withField, valueAt, if_true, if_neg (Ne.symm same)] at new
            exact Or.inr new.symm
  · rintro (rfl | idle) key
    · exact Or.inr (by rw [Change.withField_field])
    · left
      cases change with
      | put other value =>
          simp only [Change.withField, valueAt]
          split
          · next same => rw [← same, ← show valueAt changes other = some part from idle]
          · rfl
      | delete other =>
          simp only [Change.withField, valueAt]
          split
          · next same => rw [← same, ← show valueAt changes part = none from idle]
          · rfl

/-- **A torn write.**  After any acknowledged changes, a crash inside the append of
one more leaves a file that opens and shows at every key the old or the new value
exactly if the written bytes are whole characters and the written part of the last
field, if it was reached, is all of it or changes nothing. -/
theorem torn_write_iff (run : Lifetimes history engine)
    (clean : Meets (fun engine deed => deed.Clean engine) history) (cleanChange : change.Clean)
    (moved : Nat) (faults : List (Option Fault)) :
    (Exists fun opened =>
      StorageEngine.new (engine.wal.cut change.entry moved) faults = .ok opened ∧
      forall key, opened.get key = valueAt (changesOf history) key ∨
        opened.get key = valueAt (change :: changesOf history) key) <->
    change.Survives (valueAt (changesOf history)) moved := by
  have faithful := run.faithful fun moment listed => (clean moment listed).recoverable
  rcases faithful.restores with ⟨text, restores⟩
  rw [Wal.cut_eq faithful.buffer]
  rcases restores.new_append ((serializeEntry change.entry).toByteArray.extract 0 moved) faults with
    ⟨undecodable, failed⟩ | ⟨written, bytes, opens⟩
  · rw [failed]
    constructor
    · rintro ⟨_, impossible, _⟩
      cases impossible
    · rintro ⟨written, bytes, _⟩
      rw [fromUTF8?_eq_some.mpr bytes.symm] at undecodable
      cases undecodable
  · rw [opens, Change.survives_iff bytes]
    simp only [Except.ok.injEq, exists_eq_left', get_eq_shown]
    rcases cleanChange.entriesOf_written (prefix_of_extract bytes) with
      ⟨early, entries⟩ | ⟨whole, entries⟩ | ⟨part, reached, within, entries⟩
    · rw [entries]
      refine ⟨fun _ part reached => absurd reached (early part), fun _ key => ?_⟩
      exact Or.inl (congrFun restores.recovers key)
    · rw [entries]
      refine ⟨fun _ part reached => ?_, fun _ key => ?_⟩
      · rw [whole] at reached
        exact Or.inr (Or.inl ((String.append_right_inj _).mp reached).symm)
      · exact Or.inr (congrFun (shown_recover restores.recovers change) key)
    · rw [entries]
      have shows_ := shown_recover restores.recovers (change.withField part)
      have unfinished : part ≠ change.field ++ "\n" := by
        rintro rfl
        have longer := within.length_le
        have feed : "\n".toList.length = 1 := rfl
        rw [String.toList_append, List.length_append, feed] at longer
        omega
      refine Iff.trans ?_ ((valueAt_withField_iff change (changesOf history) part).trans ?_)
      · exact forall_congr' fun key => by rw [← congrFun shows_ key]; rfl
      · constructor
        · intro harmless other same
          rw [reached, String.append_right_inj] at same
          subst same
          exact harmless.imp_right Or.inr
        · intro harmless
          rcases harmless part reached with whole | feed | idle
          · exact Or.inl whole
          · exact absurd feed unfinished
          · exact Or.inr idle

end Torn

set_option maxRecDepth 100000 in
/-- A value that is cut is shown as if it had been put. -/
theorem torn_write_shown :
    ¬ forall history engine, Lifetimes history engine ->
      Meets (fun engine deed => deed.Clean engine) history ->
      forall (change : Change), change.Clean -> forall moved faults,
      Exists fun opened =>
        StorageEngine.new (engine.wal.cut change.entry moved) faults = .ok opened ∧
        forall key, opened.get key = valueAt (changesOf history) key ∨
          opened.get key = valueAt (change :: changesOf history) key := by
  intro atomic
  have found : (StorageEngine.new (StorageEngine.empty.wal.cut (Change.put "k" "ab").entry 7)
      []).toOption.map (fun opened => opened.get "k") = some (some "a") := by decide +kernel
  rcases atomic [] StorageEngine.empty (.start directory_starts)
    (fun _ listed => (List.not_mem_nil listed).elim) (.put "k" "ab") (by decide) 7 [] with
    ⟨opened, opens, agrees⟩
  rw [opens, Except.toOption, Option.map_some, Option.some.injEq] at found
  have shown_ := agrees "k"
  rw [found] at shown_
  revert shown_
  decide

set_option maxRecDepth 100000 in
/-- A crash between two characters of a value that shows the value already there. -/
theorem torn_write_again :
    Exists fun history => Exists fun engine => Lifetimes history engine ∧
      Exists fun opened =>
        StorageEngine.new (engine.wal.cut (Change.put "k" "ab").entry 7) [] = .ok opened ∧
        forall key, opened.get key = valueAt (changesOf history) key ∨
          opened.get key = valueAt (.put "k" "ab" :: changesOf history) key := by
  have checked : (directory.execute [.change (.put "k" "a")] StorageEngine.empty).any
      (fun result => decide (Meets (fun engine deed => deed.Clean engine) result.1) &&
        decide (valueAt (changesOf result.1) "k" = some "a")) = true := by decide +kernel
  rcases System.exists_run directory_starts checked with ⟨history, engine, run, holds⟩
  rcases Bool.and_eq_true_iff.mp holds with ⟨clean, value⟩
  have idle : valueAt (changesOf history) "k" = some "a" := of_decide_eq_true value
  have cleanChange : (Change.put "k" "ab").Clean := by decide
  refine ⟨history, engine, run, (torn_write_iff run (of_decide_eq_true clean) cleanChange 7 []).mpr
    ⟨"PUT|k|a", by decide +kernel, ?_⟩⟩
  intro part reached
  have cut : "PUT|k|a" = (Change.put "k" "ab").header ++ "a" := by decide
  rw [cut, String.append_right_inj] at reached
  subst reached
  exact Or.inr (Or.inr idle)

/-! ## Changes behind a cut line -/

/-- The engine after several changes that all returned `Ok`, the first one first. -/
def acknowledgeAll (engine : StorageEngine) (changes : List Change) : Option StorageEngine :=
  changes.foldlM Change.acknowledge engine

/-- What stands behind the last line feed of a text. -/
def unfinished (text : List Char) : List Char := text.rtakeWhile (· ≠ '\n')

/-- The text up to and with its last line feed. -/
def finishedPart (text : List Char) : List Char := text.rdropWhile (· ≠ '\n')

/-- The line that results from appending the change to an unfinished line is a
record: the unfinished line is the beginning of a put, and the name of the
operation of a delete becomes a part of its key. -/
def Change.GluesTo (tail : List Char) : Change -> Prop
  | .put _ _ => False
  | .delete _ => Exists fun part => '|' ∉ part ∧ tail = "PUT|".toList ++ part

/-- Changes can be appended to the file without loss: it has no unfinished line, or
the line that the first change is appended to is no record and the record before it
is the one of the first change. -/
def Appendable (file : ByteArray) (first : Change) : Prop :=
  Exists fun text : String => file = text.toByteArray ∧
    (unfinished text.toList = [] ∨
      ¬ first.GluesTo (unfinished text.toList) ∧
        (entriesOf (finishedPart text.toList)).getLast? = some first.entry)

theorem finished_finishedPart (text : List Char) : Finished (finishedPart text) := by
  by_cases empty : finishedPart text = []
  · exact Or.inl empty
  · have last : (finishedPart text).getLast empty = '\n' := by
      by_contra other
      exact List.rdropWhile_last_not _ _ empty (decide_eq_true other)
    refine Or.inr ⟨(finishedPart text).dropLast, ?_⟩
    rw [← last, List.dropLast_concat_getLast]

theorem finishedPart_append_unfinished (text : List Char) :
    finishedPart text ++ unfinished text = text :=
  List.rdropWhile_append_rtakeWhile

theorem feed_notMem_unfinished (text : List Char) : '\n' ∉ unfinished text := by
  intro listed
  have other := List.mem_rtakeWhile_imp listed
  simp at other

theorem length_splitOn (text : List Char) (separator : Char) :
    (text.splitOn separator).length = text.count separator + 1 := by
  induction text with
  | nil => rfl
  | cons character rest inductionHypothesis =>
      rw [List.splitOn_eq_splitOnP] at inductionHypothesis ⊢
      rw [List.splitOnP_cons_eq_if_modifyHead, List.count_cons]
      split <;> simp_all

/-- A line with three delimiters has too many fields. -/
theorem parseLine_of_count {line : List Char} (many : 3 ≤ line.count '|') :
    parseLine line = none := by
  have long := length_splitOn line '|'
  unfold parseLine
  split
  · next three =>
      rw [three, List.length_cons, List.length_cons, List.length_singleton] at long
      omega
  · next two =>
      rw [two, List.length_cons, List.length_singleton] at long
      omega
  · rfl

section Glued

variable {change : Change} {tail : List Char}

/-- The line of a change behind an unfinished line is not its record. -/
theorem Change.Clean.parseLine_glued (clean : change.Clean) (behind : tail ≠ []) :
    (¬ change.GluesTo tail ∧ parseLine (tail ++ lineOf change.entry) = none) ∨
    (change.GluesTo tail ∧ Exists fun other =>
      parseLine (tail ++ lineOf change.entry) = some other ∧ other ≠ change.entry) := by
  cases change with
  | put key value =>
      refine Or.inl ⟨id, ?_⟩
      by_cases delimited : '|' ∈ tail
      · apply parseLine_of_count
        have inTail : 0 < tail.count '|' := List.count_pos_iff.mpr delimited
        have inLine : 2 ≤ (lineOf (entry (.put key value))).count '|' := by
          simp [lineOf, entry]
          omega
        rw [List.count_append]
        omega
      · have spelled : tail ++ lineOf (entry (.put key value)) =
            (tail ++ "PUT".toList) ++ '|' :: (key.toList ++ '|' :: value.toList) := by
          simp [lineOf, entry]
        rw [spelled, parseLine_three _ _ _ (by simpa using delimited) clean.1.1 clean.2.1,
          if_neg (by simpa using behind)]
  | delete key =>
      by_cases delimited : '|' ∈ tail
      · rcases List.eq_append_cons_of_mem delimited with ⟨first, back, rfl, plain⟩
        have glues : GluesTo (first ++ '|' :: back) (.delete key) <->
            '|' ∉ back ∧ first = "PUT".toList := by
          constructor
          · rintro ⟨part, plainPart, equal⟩
            have same : "PUT".toList ++ '|' :: part = first ++ '|' :: back := equal.symm
            rcases (List.append_cons_inj_of_notMem (by decide) plainPart).mp same with
              ⟨operation, _, field⟩
            exact ⟨field ▸ plainPart, operation.symm⟩
          · rintro ⟨plainBack, rfl⟩
            exact ⟨back, plainBack, rfl⟩
        by_cases again : '|' ∈ back
        · refine Or.inl ⟨fun glued => (glues.mp glued).1 again, parseLine_of_count ?_⟩
          have inBack : 0 < back.count '|' := List.count_pos_iff.mpr again
          have inLine : 1 ≤ (lineOf (entry (.delete key))).count '|' := by simp [lineOf, entry]
          rw [List.count_append, List.count_append, List.count_cons_self]
          omega
        · have spelled : first ++ '|' :: back ++ lineOf (entry (.delete key)) =
              first ++ '|' :: ((back ++ "DELETE".toList) ++ '|' :: key.toList) := by
            simp [lineOf, entry]
          rw [spelled, parseLine_three _ _ _ plain (by simpa using again) clean.1, glues]
          by_cases operation : first = "PUT".toList
          · rw [if_pos operation]
            exact Or.inr ⟨⟨again, operation⟩, _, rfl, by simp [entry]⟩
          · exact Or.inl ⟨fun glued => operation glued.2, if_neg operation⟩
      · have spelled : tail ++ lineOf (entry (.delete key)) =
            (tail ++ "DELETE".toList) ++ '|' :: key.toList := by
          simp [lineOf, entry]
        refine Or.inl ⟨?_, ?_⟩
        · rintro ⟨part, _, rfl⟩
          simp at delimited
        · rw [spelled, parseLine_two _ _ (by simpa using delimited) clean.1,
            if_neg (by simpa using behind)]

end Glued

/-- The lines of several changes. -/
def recordsText (changes : List Change) : List Char :=
  changes.flatMap fun change => lineOf change.entry ++ ['\n']

theorem recordsText_cons (change : Change) (rest : List Change) :
    recordsText (change :: rest) = lineOf change.entry ++ ['\n'] ++ recordsText rest := rfl

theorem acknowledgeAll_file {engine after : StorageEngine} {changes : List Change}
    (buffer : engine.wal.buffer = ByteArray.empty)
    (acknowledged : acknowledgeAll engine changes = some after) :
    after.wal.file = engine.wal.file ++ (String.ofList (recordsText changes)).toByteArray := by
  induction changes generalizing engine with
  | nil =>
      cases acknowledged
      simp [recordsText]
  | cons change rest inductionHypothesis =>
      rw [acknowledgeAll, List.foldlM_cons] at acknowledged
      cases first : change.acknowledge engine with
      | none =>
          rw [first] at acknowledged
          cases acknowledged
      | some next =>
          rw [first] at acknowledged
          rcases Change.acknowledge_eq_some first with ⟨file, empty, _⟩
          rw [inductionHypothesis empty acknowledged, file, buffer, ByteArray.empty_append,
            ByteArray.append_assoc, ← String.toByteArray_append]
          rw [recordsText_cons, String.ofList_append, ← toList_serializeEntry, String.ofList_toList]

theorem entriesOf_recordsText {changes : List Change}
    (clean : forall change, change ∈ changes -> change.Clean) :
    entriesOf (recordsText changes) = changes.map Change.entry := by
  have cleanEntries : forall entry, entry ∈ changes.map Change.entry -> entry.Clean := by
    intro entry listed
    rcases List.mem_map.mp listed with ⟨change, made, rfl⟩
    have cleanChange := clean change made
    cases change with
    | put key value => exact .put cleanChange.1 cleanChange.2
    | delete key => exact .delete cleanChange
  have lines := filterMap_lines (changes.map Change.entry) cleanEntries
  rw [List.flatMap_map] at lines
  exact lines

/-- The entries of a text with the lines of changes behind it. -/
theorem entriesOf_behind (text : List Char) {first : Change} {rest : List Change}
    (clean : forall change, change ∈ first :: rest -> change.Clean) :
    entriesOf (text ++ recordsText (first :: rest)) = entriesOf (finishedPart text) ++
      ((parseLine (unfinished text ++ lineOf first.entry)).toList ++ rest.map Change.entry) := by
  have cleanFirst := clean first List.mem_cons_self
  have cleanRest := entriesOf_recordsText fun change listed => clean change (List.mem_cons_of_mem _ listed)
  have parts : text ++ recordsText (first :: rest) = finishedPart text ++
      ((unfinished text ++ lineOf first.entry ++ ['\n']) ++ recordsText rest) := by
    nth_rewrite 1 [← finishedPart_append_unfinished text]
    rw [recordsText_cons]
    simp only [List.append_assoc]
  have line := cleanFirst.recoverable.entriesOf_behind (feed_notMem_unfinished text)
  have ended : Finished (unfinished text ++ lineOf first.entry ++ ['\n']) := Or.inr ⟨_, rfl⟩
  rw [parts, (finished_finishedPart text).entriesOf_append, ended.entriesOf_append, line, cleanRest]

/-- A file that opens holds a text, and the engine goes on behind it. -/
theorem StorageEngine.new_eq_ok {file : ByteArray} {faults : List (Option Fault)}
    {engine : StorageEngine} (opened : StorageEngine.new file faults = .ok engine) :
    (Exists fun text : String => file = text.toByteArray) ∧ engine.wal = Wal.new file faults := by
  cases decoded : String.fromUTF8? file with
  | none =>
      rw [StorageEngine.new_of_undecodable decoded] at opened
      cases opened
  | some text =>
      have holds := fromUTF8?_eq_some.mp decoded
      rw [StorageEngine.new_of_replay (Wal.replay_of_text holds)] at opened
      cases opened
      exact ⟨⟨text, holds⟩, rfl⟩

theorem cons_suffix_append_iff {first : WalEntry} {rest front : List WalEntry} :
    first :: rest <:+ front ++ rest <-> front.getLast? = some first := by
  constructor
  · rintro ⟨before, equal⟩
    have parts : before ++ [first] ++ rest = front ++ rest := by
      rw [← equal, List.append_assoc, List.singleton_append]
    rw [← List.append_cancel_right parts, List.getLast?_concat]
  · intro last
    rcases List.getLast?_eq_some_iff.mp last with ⟨before, rfl⟩
    exact ⟨before, by rw [List.append_assoc, List.singleton_append]⟩

/-- **Changes behind a torn write.**  Whatever is in a file that opens, clean changes
that are acknowledged after it are the last ones read at the next opening exactly if
the file can be appended to. -/
theorem acknowledged_after_torn_iff {file : ByteArray} {faults later : List (Option Fault)}
    {engine after : StorageEngine} (opened : StorageEngine.new file faults = .ok engine)
    {first : Change} {rest : List Change}
    (clean : forall change, change ∈ first :: rest -> change.Clean)
    (acknowledged : acknowledgeAll engine (first :: rest) = some after) :
    (Exists fun entries => (Wal.new after.wal.file later).replay = .ok entries ∧
      (first :: rest).map Change.entry <:+ entries) <->
    Appendable file first := by
  rcases StorageEngine.new_eq_ok opened with ⟨⟨text, rfl⟩, wal⟩
  have grown := acknowledgeAll_file (by rw [wal]; rfl) acknowledged
  have replayed : (Wal.new after.wal.file later).replay =
      .ok (entriesOf (text.toList ++ recordsText (first :: rest))) := by
    rw [wal] at grown
    change _ = text.toByteArray ++ _ at grown
    rw [← String.toByteArray_append] at grown
    have held : (Wal.new after.wal.file later).file =
        (text ++ String.ofList (recordsText (first :: rest))).toByteArray := grown
    rw [Wal.replay_of_text held, parse, String.toList_append, String.toList_ofList]
    rfl
  have cleanFirst := clean first List.mem_cons_self
  have condition : Appendable text.toByteArray first <-> unfinished text.toList = [] ∨
      ¬ first.GluesTo (unfinished text.toList) ∧
        (entriesOf (finishedPart text.toList)).getLast? = some first.entry := by
    constructor
    · rintro ⟨other, same, harmless⟩
      rw [String.toByteArray_inj.mp same]
      exact harmless
    · exact fun harmless => ⟨text, rfl, harmless⟩
  simp only [replayed, Except.ok.injEq, exists_eq_left']
  rw [condition, entriesOf_behind _ clean, ← List.append_assoc, List.map_cons, cons_suffix_append_iff]
  by_cases complete : unfinished text.toList = []
  · have read : parseLine (lineOf first.entry) = some first.entry := by
      rw [Change.lineOf_entry, cleanFirst.parseLine_field List.prefix_rfl, Change.withField_field]
    rw [complete, List.nil_append, read, Option.toList_some, List.getLast?_concat]
    exact ⟨fun _ => Or.inl rfl, fun _ => rfl⟩
  · simp only [complete, false_or]
    rcases cleanFirst.parseLine_glued complete with ⟨apart, read⟩ | ⟨glued, other, read, different⟩
    · rw [read, Option.toList_none, List.append_nil]
      exact ⟨fun last => ⟨apart, last⟩, fun harmless => harmless.2⟩
    · rw [read, Option.toList_some, List.getLast?_concat]
      exact ⟨fun same => absurd (Option.some.inj same) different, fun harmless => absurd glued harmless.1⟩

set_option maxRecDepth 100000 in
/-- Behind a cut put, the next one is lost with it. -/
theorem acknowledged_lost :
    ¬ forall (before written : String) (torn : Change), torn.Clean -> Finished before.toList ->
      written.toList <+: (serializeEntry torn.entry).toList ->
      written ≠ serializeEntry torn.entry ->
      forall faults engine,
      StorageEngine.new (before ++ written).toByteArray faults = .ok engine ->
      forall first rest, (forall change, change ∈ first :: rest -> change.Clean) ->
      forall after, acknowledgeAll engine (first :: rest) = some after -> forall later,
      Exists fun entries => (Wal.new after.wal.file later).replay = .ok entries ∧
        (first :: rest).map Change.entry <:+ entries := by
  intro survives
  have checked : ((StorageEngine.new ("" ++ "PUT|k").toByteArray []).toOption.bind fun engine =>
      (acknowledgeAll engine [.put "a" "b"]).map fun after =>
        (Wal.new after.wal.file []).replay.toOption) = some (some []) := by decide +kernel
  rcases Option.bind_eq_some_iff.mp checked with ⟨engine, opened, acknowledged⟩
  rcases Option.map_eq_some_iff.mp acknowledged with ⟨after, grown, read⟩
  rcases survives "" "PUT|k" (.put "k" "v") (by decide) (Or.inl rfl) (by decide) (by decide) []
    engine (toOption_eq_some.mp opened) (.put "a" "b") [] (by decide) after grown [] with
    ⟨entries, replayed, kept⟩
  rw [replayed] at read
  cases read
  exact absurd (List.suffix_nil.mp kept) (by decide)

set_option maxRecDepth 100000 in
/-- A file that ends with the beginning of an operation's name: a change that is
the same as the last one in the file seems to be found again. -/
theorem acknowledged_after_torn_same :
    Exists fun engine => Exists fun after =>
      StorageEngine.new "PUT|a|b\nPU".toByteArray [] = .ok engine ∧
      acknowledgeAll engine [.put "a" "b", .delete "a"] = some after ∧
      Exists fun entries => (Wal.new after.wal.file []).replay = .ok entries ∧
        [Change.put "a" "b", .delete "a"].map Change.entry <:+ entries := by
  have checked : ((StorageEngine.new "PUT|a|b\nPU".toByteArray []).toOption.bind fun engine =>
      acknowledgeAll engine [.put "a" "b", .delete "a"]).isSome = true := by decide +kernel
  rcases Option.isSome_iff_exists.mp checked with ⟨after, reached⟩
  rcases Option.bind_eq_some_iff.mp reached with ⟨engine, returned, acknowledged⟩
  have opened := toOption_eq_some.mp returned
  have clean : forall change, change ∈ [Change.put "a" "b", .delete "a"] -> change.Clean := by
    decide
  refine ⟨engine, after, opened, acknowledged,
    (acknowledged_after_torn_iff opened clean acknowledged).mpr ⟨_, rfl, Or.inr ⟨id, ?_⟩⟩⟩
  decide +kernel

end Storage
end RaftStore
