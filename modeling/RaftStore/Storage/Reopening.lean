import RaftStore.Storage.Engine
import RaftStore.Systems.Run

namespace RaftStore
namespace Storage

open Systems

/-!
# Lifetimes of the storage engine

The engine is opened, acknowledges changes, is dropped or killed, and is opened
again on the file it left.  The file has no length, no checksum and no escapes:
a record is a line, and a line is cut into fields at the delimiter.

What a text without an unfinished last line holds is settled, whatever is written
behind it, so that the changes of a run come back one by one if each of them
survives the encoding.
-/

/-! ## Changes and lifetimes -/

/-- A change a client of the engine asks for. -/
inductive Change where
  | put (key value : String)
  | delete (key : String)
  deriving DecidableEq, Repr

namespace Change

/-- The record of a change. -/
def entry : Change -> WalEntry
  | .put key value => ⟨.put, key, some value⟩
  | .delete key => ⟨.delete, key, none⟩

/-- The engine after a change, and its answer. -/
def run (engine : StorageEngine) : Change -> StorageEngine × Except IoError Unit
  | .put key value => engine.put key value
  | .delete key => engine.delete key

/-- The engine after a change that returned `Ok`. -/
def acknowledge (engine : StorageEngine) (change : Change) : Option StorageEngine :=
  match change.run engine with
  | (after, .ok ()) => some after
  | (_, .error _) => none

end Change

/-- The value of the last put on a key that no delete follows.  The changes are
listed with the newest first. -/
def valueAt : List Change -> String -> Option String
  | [], _ => none
  | .put key value :: older, wanted => if key = wanted then some value else valueAt older wanted
  | .delete key :: older, wanted => if key = wanted then none else valueAt older wanted

/-- What happens to an engine: an acknowledged change, or the end of its lifetime
and the opening of the same directory, where the disk will have the given faults. -/
inductive Deed where
  | change (made : Change)
  | reopen (faults : List (Option Fault))
  deriving DecidableEq, Repr

/-- One deed.  A change that is not acknowledged and an opening that fails take no
step. -/
def Deed.step (engine : StorageEngine) : Deed -> Option (StorageEngine × Unit)
  | .change made => (made.acknowledge engine).map fun after => (after, ())
  | .reopen faults =>
      (StorageEngine.new engine.wal.file faults).toOption.map fun opened => (opened, ())

/-- The lifetimes of one directory, which is empty at first. -/
def directory : System StorageEngine Deed Unit where
  Starts engine := Exists fun faults => StorageEngine.new ByteArray.empty faults = .ok engine
  step := Deed.step

/-- A deed with the engines around it. -/
abbrev Turn := Systems.Transition StorageEngine Deed Unit

/-- The runs of one directory. -/
abbrev Lifetimes : List Turn -> StorageEngine -> Prop := directory.Run

/-- The change a deed makes, if it is one. -/
def Deed.made : Deed -> Option Change
  | .change made => some made
  | .reopen _ => none

/-- The changes of a run over all its lifetimes, newest first. -/
def changesOf (history : List Turn) : List Change :=
  history.filterMap fun moment => moment.event.made

/-! ## Acknowledged changes -/

section Acknowledged

variable {engine after : StorageEngine} {change : Change}

/-- An append that returns `Ok` has written the buffer and the line. -/
theorem Wal.append_eq_ok {wal grown : Wal} {entry : WalEntry}
    (appended : wal.append entry = (grown, .ok ())) :
    grown.file = wal.file ++ (wal.buffer ++ (serializeEntry entry).toByteArray) ∧
      grown.buffer = ByteArray.empty := by
  unfold Wal.append at appended
  split at appended <;> cases appended
  exact ⟨rfl, rfl⟩

/-- A change is stored if its record is appended. -/
theorem Change.run_eq (engine : StorageEngine) (change : Change) :
    change.run engine =
      match engine.wal.append change.entry with
      | (wal, .error error) => ({ engine with wal := wal }, .error error)
      | (wal, .ok ()) => (⟨wal, StorageEngine.recover engine.memtable change.entry⟩, .ok ()) := by
  cases change <;> rfl

/-- An acknowledged change is at the end of the file and in the memtable. -/
theorem Change.acknowledge_eq_some (acknowledged : change.acknowledge engine = some after) :
    after.wal.file =
      engine.wal.file ++ (engine.wal.buffer ++ (serializeEntry change.entry).toByteArray) ∧
    after.wal.buffer = ByteArray.empty ∧
    after.memtable = StorageEngine.recover engine.memtable change.entry := by
  have appends : Exists fun wal => engine.wal.append change.entry = (wal, .ok ()) ∧
      after = ⟨wal, StorageEngine.recover engine.memtable change.entry⟩ := by
    rcases appended : engine.wal.append change.entry with ⟨wal, _ | _⟩ <;>
      simp only [acknowledge, run_eq, appended] at acknowledged <;> cases acknowledged
    exact ⟨wal, rfl, rfl⟩
  rcases appends with ⟨wal, appended, rfl⟩
  rcases Wal.append_eq_ok appended with ⟨file, buffer⟩
  exact ⟨file, buffer, rfl⟩

/-- What a memtable shows of a key. -/
def shown (memtable : Memtable) (key : String) : Option String := (memtable.get key).join

theorem shown_new : shown Memtable.new = valueAt [] := by
  funext key
  simp [shown, Memtable.get, Memtable.new, valueAt]

theorem shown_recover {memtable : Memtable} {changes : List Change}
    (shows_ : shown memtable = valueAt changes) (change : Change) :
    shown (StorageEngine.recover memtable change.entry) = valueAt (change :: changes) := by
  funext wanted
  have before := congrFun shows_ wanted
  unfold shown at before
  cases change with
  | put key value =>
      change ((memtable.put key value).1.get wanted).join = _
      rw [Memtable.get_put, valueAt]
      split
      · rfl
      · exact before
  | delete key =>
      change ((memtable.delete key).1.get wanted).join = _
      rw [Memtable.get_delete, valueAt]
      split
      · rfl
      · exact before

end Acknowledged

/-! ## Texts without an unfinished line -/

/-- The text is empty or ends with a line feed. -/
def Finished (text : List Char) : Prop :=
  text = [] ∨ Exists fun body => text = body ++ ['\n']

theorem Finished.lines_append {text : List Char} (finished : Finished text) (rest : List Char) :
    lines (text ++ rest) = lines text ++ lines rest := by
  rcases finished with rfl | ⟨body, rfl⟩
  · rfl
  · have alone := lines_append_feed body []
    rw [List.append_assoc, List.singleton_append, lines_append_feed, alone]
    simp [lines, linesOf]

theorem Finished.append {text : List Char} (line : List Char) : Finished (text ++ (line ++ ['\n'])) :=
  Or.inr ⟨text ++ line, (List.append_assoc _ _ _).symm⟩

/-- The entries on the lines of a text. -/
def entriesOf (text : List Char) : List WalEntry := (lines text).filterMap parseLine

theorem Finished.entriesOf_append {text : List Char} (finished : Finished text) (rest : List Char) :
    entriesOf (text ++ rest) = entriesOf text ++ entriesOf rest := by
  rw [entriesOf, finished.lines_append, List.filterMap_append]
  rfl

/-- A line loses at most a carriage return before it is parsed. -/
theorem entriesOf_stripped {line : List Char} (feed : '\n' ∉ line) :
    entriesOf (line ++ ['\n']) = (parseLine (chompReturn line)).toList := by
  rw [entriesOf, lines_append_feed, splitOn_of_notMem feed]
  have none : lines [] = [] := rfl
  rw [List.map_singleton, none, List.append_nil, List.filterMap_cons, List.filterMap_nil]
  cases parseLine (chompReturn line) <;> rfl

theorem entriesOf_line {line : List Char} (feed : '\n' ∉ line) (last : line.getLast? ≠ some '\r') :
    entriesOf (line ++ ['\n']) = (parseLine line).toList := by
  have whole : chompReturn line = line := if_neg last
  rw [entriesOf_stripped feed, whole]

theorem entriesOf_unfinished {line : List Char} (feed : '\n' ∉ line) :
    entriesOf line = (parseLine line).toList := by
  unfold entriesOf lines
  rw [splitOn_of_notMem feed, linesOf]
  by_cases empty : line = []
  · subst empty
    rfl
  · rw [if_neg empty, List.filterMap_cons, List.filterMap_nil]
    cases parseLine line <;> rfl

/-! ## What an engine brings back -/

/-- The change survives the encoding: nothing in it is taken for the end of a line
or of a field.  A carriage return does no harm unless it ends the line, and a
delimiter does none in a delete, whose line is then skipped: no such key can be in
the file. -/
def Change.Recoverable : Change -> Prop
  | .put key value =>
      ('|' ∉ key.toList ∧ '\n' ∉ key.toList) ∧ '|' ∉ value.toList ∧ '\n' ∉ value.toList ∧
        value.toList.getLast? ≠ some '\r'
  | .delete key => '\n' ∉ key.toList ∧ key.toList.getLast? ≠ some '\r'

instance : (change : Change) -> Decidable change.Recoverable
  | .put _ _ => inferInstanceAs (Decidable ((_ ∧ _) ∧ _ ∧ _ ∧ _))
  | .delete _ => inferInstanceAs (Decidable (_ ∧ _))

/-- A deed whose change, if it makes one, survives the encoding. -/
def Deed.Recoverable (_ : StorageEngine) : Deed -> Prop
  | .change made => made.Recoverable
  | .reopen _ => True

instance (engine : StorageEngine) : (deed : Deed) -> Decidable (deed.Recoverable engine)
  | .change made => inferInstanceAs (Decidable made.Recoverable)
  | .reopen _ => inferInstanceAs (Decidable True)

theorem getLast?_append_cons (front back : List Char) (middle : Char) :
    (front ++ middle :: back).getLast? = some (back.getLast?.getD middle) := by
  rw [List.getLast?_append_cons, List.getLast?_cons]

section Records

variable {key value : String}

theorem parseLine_put (plainKey : '|' ∉ key.toList) (plainValue : '|' ∉ value.toList) :
    parseLine (lineOf (Change.put key value).entry) = some (Change.put key value).entry := by
  have spelled : lineOf (Change.put key value).entry =
      "PUT".toList ++ '|' :: (key.toList ++ '|' :: value.toList) := rfl
  rw [spelled, parseLine_three _ _ _ (by decide) plainKey plainValue, if_pos rfl,
    String.ofList_toList, String.ofList_toList]
  rfl

theorem parseLine_delete (key : String) :
    parseLine (lineOf (Change.delete key).entry) =
      if '|' ∈ key.toList then none else some (Change.delete key).entry := by
  have spelled : lineOf (Change.delete key).entry = "DELETE".toList ++ '|' :: key.toList := rfl
  rw [spelled]
  by_cases delimited : '|' ∈ key.toList
  · unfold parseLine
    rw [splitOn_append_cons (by decide)]
    rcases List.append_of_mem delimited with ⟨front, back, parts⟩
    rw [if_pos delimited, parts, splitOn_append_separator]
    rcases List.exists_cons_of_ne_nil (List.splitOn_ne_nil '|' front) with ⟨first, others, left⟩
    rcases List.exists_cons_of_ne_nil (List.splitOn_ne_nil '|' back) with ⟨next, more, right⟩
    rw [left, right]
    cases others with
    | nil => cases more <;> simp
    | cons second others => cases others <;> simp
  · rw [if_neg delimited, parseLine_two _ _ (by decide) delimited, if_pos rfl,
      String.ofList_toList]
    rfl

theorem Change.Recoverable.feed_notMem {change : Change} (recoverable : change.Recoverable) :
    '\n' ∉ lineOf change.entry := by
  cases change with
  | put key value => simp [lineOf, entry, recoverable.1.2, recoverable.2.2.1]
  | delete key => simp [lineOf, entry, recoverable.1]

theorem Change.Recoverable.getLast?_line {change : Change} (recoverable : change.Recoverable) :
    Exists fun last => (lineOf change.entry).getLast? = some last ∧ last ≠ '\r' := by
  cases change with
  | put key value =>
      change Exists fun last =>
        ("PUT".toList ++ '|' :: (key.toList ++ '|' :: value.toList)).getLast? = some last ∧ last ≠ '\r'
      rw [getLast?_append_cons, getLast?_append_cons]
      refine ⟨_, rfl, ?_⟩
      cases last : value.toList.getLast? with
      | none => decide
      | some character => simpa [last] using recoverable.2.2.2
  | delete key =>
      change Exists fun last =>
        ("DELETE".toList ++ '|' :: key.toList).getLast? = some last ∧ last ≠ '\r'
      rw [getLast?_append_cons]
      refine ⟨_, rfl, ?_⟩
      cases last : key.toList.getLast? with
      | none => decide
      | some character => simpa [last] using recoverable.2

/-- The line of a change that survives the encoding, behind an unfinished line. -/
theorem Change.Recoverable.entriesOf_behind {change : Change} (recoverable : change.Recoverable)
    {tail : List Char} (feed : '\n' ∉ tail) :
    entriesOf (tail ++ lineOf change.entry ++ ['\n']) =
      (parseLine (tail ++ lineOf change.entry)).toList := by
  apply entriesOf_line
  · rw [List.mem_append]
    rintro (before | inside)
    · exact feed before
    · exact recoverable.feed_notMem inside
  · rcases recoverable.getLast?_line with ⟨last, found, different⟩
    rw [List.getLast?_append, found, Option.some_or]
    exact fun same => different (Option.some.inj same)

end Records

/-- The file holds a text without an unfinished line from which exactly the given
changes come back, and no key in it has a delimiter. -/
structure Restores (file : ByteArray) (changes : List Change) (text : List Char) : Prop where
  file : file = (String.ofList text).toByteArray
  finished : Finished text
  recovers : shown ((entriesOf text).foldl StorageEngine.recover Memtable.new) = valueAt changes
  plain : forall key : String, '|' ∈ key.toList -> valueAt changes key = none

theorem restores_empty : Restores ByteArray.empty [] [] where
  file := rfl
  finished := Or.inl rfl
  recovers := shown_new
  plain _ _ := rfl

section Restores

variable {file : ByteArray} {changes : List Change} {text : List Char}

/-- Opening a file brings the changes back, whatever the disk will do later. -/
theorem Restores.opens (restores : Restores file changes text) (faults : List (Option Fault)) :
    Exists fun opened => StorageEngine.new file faults = .ok opened ∧
      opened.wal = Wal.new file faults ∧ shown opened.memtable = valueAt changes := by
  have replayed : (Wal.new file faults).replay = .ok (entriesOf text) := by
    rw [Wal.replay_of_text restores.file, parse, String.toList_ofList]
    rfl
  exact ⟨_, StorageEngine.new_of_replay replayed, rfl, restores.recovers⟩

/-- A change that survives the encoding comes back with the others. -/
theorem Restores.change (restores : Restores file changes text) {change : Change}
    (recoverable : change.Recoverable) :
    Restores (file ++ (serializeEntry change.entry).toByteArray) (change :: changes)
      (text ++ (lineOf change.entry ++ ['\n'])) := by
  have added := restores.finished.entriesOf_append (lineOf change.entry ++ ['\n'])
  have alone : entriesOf (lineOf change.entry ++ ['\n']) = _ :=
    recoverable.entriesOf_behind List.not_mem_nil
  rw [alone, List.nil_append] at added
  refine ⟨?_, .append _, ?_, ?_⟩
  · rw [restores.file, ← toList_serializeEntry, String.ofList_append, String.ofList_toList,
      String.toByteArray_append]
  · rw [added, List.foldl_append]
    cases change with
    | put key value =>
        rw [parseLine_put recoverable.1.1 recoverable.2.1]
        exact shown_recover restores.recovers (.put key value)
    | delete key =>
        rw [parseLine_delete]
        by_cases delimited : '|' ∈ key.toList
        · rw [if_pos delimited]
          refine restores.recovers.trans ?_
          funext wanted
          rw [valueAt]
          split
          · next same => rw [← same, restores.plain key delimited]
          · rfl
        · rw [if_neg delimited]
          exact shown_recover restores.recovers (.delete key)
  · intro wanted delimited
    cases change with
    | put key value =>
        have other : key ≠ wanted := by
          rintro rfl
          exact recoverable.1.1 delimited
        rw [valueAt, if_neg other]
        exact restores.plain wanted delimited
    | delete key =>
        rw [valueAt]
        split
        · rfl
        · exact restores.plain wanted delimited

end Restores

/-- An engine shows the changes, and its file restores them. -/
structure Faithful (engine : StorageEngine) (changes : List Change) : Prop where
  shows_ : engine.get = valueAt changes
  buffer : engine.wal.buffer = ByteArray.empty
  restores : Exists fun text => Restores engine.wal.file changes text

theorem get_eq_shown (engine : StorageEngine) : engine.get = shown engine.memtable := by
  funext key
  exact engine.get_eq_join key

section Lifetimes

variable {history : List Turn} {engine : StorageEngine}

/-- Opening a file that restores changes gives an engine that shows them. -/
theorem Restores.faithful {file : ByteArray} {changes : List Change} {text : List Char}
    (restores : Restores file changes text) {faults : List (Option Fault)}
    (opened : StorageEngine.new file faults = .ok engine) : Faithful engine changes := by
  rcases restores.opens faults with ⟨other, opens, wal, shows_⟩
  rw [opened] at opens
  cases opens
  refine ⟨by rw [get_eq_shown, shows_], by rw [wal]; rfl, text, ?_⟩
  rw [wal]
  exact restores

theorem Faithful.change {changes : List Change} (faithful : Faithful engine changes)
    {made : Change} (recoverable : made.Recoverable) {after : StorageEngine}
    (acknowledged : made.acknowledge engine = some after) : Faithful after (made :: changes) := by
  rcases Change.acknowledge_eq_some acknowledged with ⟨file, buffer, memtable⟩
  rcases faithful.restores with ⟨text, restores⟩
  refine ⟨?_, buffer, text ++ (lineOf made.entry ++ ['\n']), ?_⟩
  · rw [get_eq_shown, memtable]
    exact shown_recover (by rw [← get_eq_shown, faithful.shows_]) made
  · rw [file, faithful.buffer, ByteArray.empty_append]
    exact restores.change recoverable

theorem Lifetimes.faithful (run : Lifetimes history engine)
    (meets : Meets (fun engine deed => deed.Recoverable engine) history) :
    Faithful engine (changesOf history) := by
  induction run with
  | start begins =>
      rcases begins with ⟨faults, opened⟩
      exact restores_empty.faithful opened
  | @next _ _ after deed _ _ stepped inductionHypothesis =>
      have before := inductionHypothesis meets.earlier
      cases deed with
      | change made =>
          rcases Option.map_eq_some_iff.mp stepped with ⟨changed, acknowledged, equal⟩
          cases equal
          exact before.change meets.last acknowledged
      | reopen faults =>
          rcases Option.map_eq_some_iff.mp stepped with ⟨opened, returned, equal⟩
          cases equal
          rcases before.restores with ⟨text, restores⟩
          exact restores.faithful (toOption_eq_some.mp returned)

/-- **Recovery.**  In every run over any number of lifetimes whose changes survive
the encoding, the directory can be opened at any time, and every key then has the
value of the last put on it that no delete follows. -/
theorem recovery_restores (run : Lifetimes history engine)
    (meets : Meets (fun engine deed => deed.Recoverable engine) history)
    (faults : List (Option Fault)) :
    engine.get = valueAt (changesOf history) ∧
    Exists fun opened => StorageEngine.new engine.wal.file faults = .ok opened ∧
      opened.get = valueAt (changesOf history) := by
  have faithful := run.faithful meets
  rcases faithful.restores with ⟨text, restores⟩
  rcases restores.opens faults with ⟨opened, opens, _, shows_⟩
  exact ⟨faithful.shows_, opened, opens, by rw [get_eq_shown, shows_]⟩

end Lifetimes

theorem directory_starts : directory.Starts StorageEngine.empty := ⟨[], StorageEngine.new_empty⟩

set_option maxRecDepth 100000 in
/-- A key with a delimiter: its put is acknowledged and lost. -/
theorem recovery_loses :
    ¬ forall history engine, Lifetimes history engine -> forall faults,
      Exists fun opened => StorageEngine.new engine.wal.file faults = .ok opened ∧
        opened.get = valueAt (changesOf history) := by
  intro restores
  have checked : (directory.execute [.change (.put "a|b" "v")] StorageEngine.empty).any
      (fun result => decide (valueAt (changesOf result.1) "a|b" = some "v" ∧
        (StorageEngine.new result.2.wal.file []).toOption.map (fun opened => opened.get "a|b") =
          some none)) = true := by decide +kernel
  rcases System.exists_run directory_starts checked with ⟨history, engine, run, holds⟩
  rcases of_decide_eq_true holds with ⟨wanted, found⟩
  rcases restores history engine run [] with ⟨opened, opens, same⟩
  rw [opens, Except.toOption, Option.map_some, same, wanted] at found
  cases found

set_option maxRecDepth 100000 in
/-- Two lifetimes with an overwritten key, a deleted one, and a carriage return
inside a value. -/
theorem recovery_restores_twice :
    Exists fun history => Exists fun engine => Lifetimes history engine ∧
      Exists fun opened => StorageEngine.new engine.wal.file [] = .ok opened ∧
        opened.get "k" = some "a\rb" ∧ opened.get "j" = none := by
  have checked : (directory.execute [.change (.put "k" "a"), .change (.put "j" "b"),
      .reopen [none, none], .change (.delete "j"), .change (.put "k" "a\rb")]
      StorageEngine.empty).any (fun result =>
        decide (Meets (fun engine deed => deed.Recoverable engine) result.1) &&
        decide (valueAt (changesOf result.1) "k" = some "a\rb" ∧
          valueAt (changesOf result.1) "j" = none)) = true := by decide +kernel
  rcases System.exists_run directory_starts checked with ⟨history, engine, run, holds⟩
  rcases Bool.and_eq_true_iff.mp holds with ⟨meets, wanted⟩
  rcases of_decide_eq_true wanted with ⟨first, second⟩
  rcases (recovery_restores run (of_decide_eq_true meets) []).2 with ⟨opened, opens, same⟩
  exact ⟨history, engine, run, opened, opens, by rw [same, first], by rw [same, second]⟩

end Storage
end RaftStore
