import RaftStore.Storage.Torn

namespace RaftStore
namespace Storage

open Systems

/-!
# Appends that fail

An append can fail in three places, and each leaves something else behind.  A
failed write may have moved a part of the record to the file, a failed flush keeps
the rest of it in the buffer, from where it goes to the file with the next flush or
when the engine is dropped, and a failed sync has written all of it.  The memtable
takes over nothing in any of these cases.  So the memtable and the file still agree
only if nothing of the record was moved, or if the record changes nothing.
-/

/-- What the file holds once the engine is dropped: the writer flushes its buffer. -/
def StorageEngine.dropped (engine : StorageEngine) : ByteArray :=
  engine.wal.file ++ engine.wal.buffer

/-- What happens to an engine: a change is tried, or the engine is dropped and the
directory opened again, where the disk will have the given faults. -/
inductive Trial where
  | attempt (change : Change)
  | reopen (faults : List (Option Fault))
  deriving DecidableEq, Repr

/-- One trial, with what it returns. -/
def Trial.step (engine : StorageEngine) : Trial -> Option (StorageEngine × Except IoError Unit)
  | .attempt change => some (change.run engine)
  | .reopen faults =>
      (StorageEngine.new engine.dropped faults).toOption.map fun opened => (opened, .ok ())

/-- One directory under trials, which is empty at first. -/
def trials : System StorageEngine Trial (Except IoError Unit) where
  Starts engine := Exists fun faults => StorageEngine.new ByteArray.empty faults = .ok engine
  step := Trial.step

/-- The runs of one directory whose appends may fail. -/
abbrev Trials : List (Systems.Transition StorageEngine Trial (Except IoError Unit)) ->
    StorageEngine -> Prop := trials.Run

instance (contents : String -> Option String) :
    (change : Change) -> Decidable (change.Idle contents)
  | .put _ _ => inferInstanceAs (Decidable (_ = _))
  | .delete _ => inferInstanceAs (Decidable (_ = _))

/-- The change, its append going as the disk will have it, leaves the file in step
with the memtable: it is stored and survives the encoding, nothing of it is moved
to the file, or it survives the encoding and changes nothing. -/
def Change.InStep (engine : StorageEngine) (change : Change) : Prop :=
  match engine.wal.faults.head? with
  | some (some (.write moved)) => moved ≤ engine.wal.buffer.size
  | some (some (.flush _)) => change.Recoverable ∧ change.Idle engine.get
  | some (some .sync) => change.Recoverable ∧ change.Idle engine.get
  | _ => change.Recoverable

instance (engine : StorageEngine) (change : Change) : Decidable (change.InStep engine) :=
  match fault : engine.wal.faults.head? with
  | some (some (.write moved)) =>
      decidable_of_iff (moved ≤ engine.wal.buffer.size) (by rw [Change.InStep, fault])
  | some (some (.flush _)) =>
      decidable_of_iff (change.Recoverable ∧ change.Idle engine.get) (by rw [Change.InStep, fault])
  | some (some .sync) =>
      decidable_of_iff (change.Recoverable ∧ change.Idle engine.get) (by rw [Change.InStep, fault])
  | some none => decidable_of_iff change.Recoverable (by rw [Change.InStep, fault])
  | none => decidable_of_iff change.Recoverable (by rw [Change.InStep, fault])

/-- A trial whose change, if one is tried, is in step. -/
def Trial.InStep (engine : StorageEngine) : Trial -> Prop
  | .attempt change => change.InStep engine
  | .reopen _ => True

instance (engine : StorageEngine) : (trial : Trial) -> Decidable (trial.InStep engine)
  | .attempt change => inferInstanceAs (Decidable (change.InStep engine))
  | .reopen _ => inferInstanceAs (Decidable True)

/-- The file of the dropped engine restores what the engine shows. -/
def InAccord (engine : StorageEngine) : Prop :=
  Exists fun changes => engine.get = valueAt changes ∧
    Exists fun text => Restores engine.dropped changes text

/-! ## One append -/

section Appends

variable {engine after : StorageEngine} {change : Change} {answer : Except IoError Unit}

/-- What a tried change does: all of its record is written or waits in the buffer,
and it is stored or not, or the buffered write has failed. -/
inductive Tried (engine : StorageEngine) (change : Change) :
    StorageEngine -> Except IoError Unit -> Prop
  | stored {after : StorageEngine} (recoverable : change.InStep engine -> change.Recoverable)
      (file : after.dropped = engine.dropped ++ (serializeEntry change.entry).toByteArray)
      (memtable : after.memtable = StorageEngine.recover engine.memtable change.entry) :
      Tried engine change after (.ok ())
  | kept {after : StorageEngine} {error : IoError}
      (idle : change.InStep engine -> change.Recoverable ∧ change.Idle engine.get)
      (file : after.dropped = engine.dropped ++ (serializeEntry change.entry).toByteArray)
      (memtable : after.memtable = engine.memtable) : Tried engine change after (.error error)
  | refused {after : StorageEngine} {error : IoError}
      (file : change.InStep engine -> after.dropped = engine.dropped)
      (memtable : after.memtable = engine.memtable) : Tried engine change after (.error error)

theorem extract_halves (bytes : ByteArray) (moved : Nat) :
    bytes.extract 0 moved ++ bytes.extract moved bytes.size = bytes := by
  rw [ByteArray.extract_append_extract, Nat.zero_min, ByteArray.extract_zero_max_size]

theorem Change.tried (engine : StorageEngine) (change : Change) :
    Tried engine change (change.run engine).1 (change.run engine).2 := by
  have grown : engine.wal.file ++ (engine.wal.buffer ++
      (serializeEntry change.entry).toByteArray) =
        engine.dropped ++ (serializeEntry change.entry).toByteArray := ByteArray.append_assoc.symm
  rw [Change.run_eq]
  unfold Wal.append
  rcases fault : engine.wal.faults.head? with _ | _ | moved | moved | _
  · refine .stored (fun held => ?_) ?_ rfl
    · rw [Change.InStep, fault] at held
      exact held
    · exact ByteArray.append_empty.trans grown
  · refine .stored (fun held => ?_) ?_ rfl
    · rw [Change.InStep, fault] at held
      exact held
    · exact ByteArray.append_empty.trans grown
  · refine .refused (fun held => ?_) rfl
    rw [Change.InStep, fault] at held
    change moved ≤ engine.wal.buffer.size at held
    have untouched : (engine.wal.buffer ++ (serializeEntry change.entry).toByteArray).extract 0 moved =
        engine.wal.buffer.extract 0 moved := by
      rw [ByteArray.extract_append, Nat.zero_sub, Nat.sub_eq_zero_of_le held,
        ByteArray.extract_same, ByteArray.append_empty]
    change (engine.wal.file ++ _) ++ _ = engine.wal.file ++ engine.wal.buffer
    rw [untouched, ByteArray.append_assoc, extract_halves]
  · refine .kept (fun held => ?_) ?_ rfl
    · rw [Change.InStep, fault] at held
      exact held
    · rw [← grown]
      change (engine.wal.file ++ _) ++ _ = _
      rw [ByteArray.append_assoc, extract_halves]
  · refine .kept (fun held => ?_) ?_ rfl
    · rw [Change.InStep, fault] at held
      exact held
    · exact ByteArray.append_empty.trans grown

/-- A change that changes nothing may be in the file or not. -/
theorem Change.Idle.valueAt_cons {changes : List Change} (idle : change.Idle (valueAt changes)) :
    valueAt (change :: changes) = valueAt changes := by
  funext wanted
  cases change with
  | put key value =>
      rw [valueAt]
      split
      · next same => rw [← same, idle]
      · rfl
  | delete key =>
      rw [valueAt]
      split
      · next same => rw [← same, idle]
      · rfl

/-- A change that is in step keeps the file in accord with the memtable. -/
theorem InAccord.attempt (accord : InAccord engine) (inStep : change.InStep engine) :
    InAccord (change.run engine).1 := by
  rcases accord with ⟨changes, shows_, text, restores⟩
  have tried := Change.tried engine change
  generalize (change.run engine).1 = after at tried ⊢
  generalize (change.run engine).2 = answer at tried
  cases tried with
  | stored recoverable file memtable =>
      refine ⟨change :: changes, ?_, text ++ (lineOf change.entry ++ ['\n']), ?_⟩
      · rw [get_eq_shown, memtable]
        exact shown_recover (by rw [← get_eq_shown, shows_]) change
      · rw [file]
        exact restores.change (recoverable inStep)
  | kept idle file memtable =>
      rcases idle inStep with ⟨recoverable, nothing⟩
      rw [shows_] at nothing
      have grown := restores.change recoverable
      refine ⟨changes, by rw [get_eq_shown, memtable, ← get_eq_shown, shows_],
        text ++ (lineOf change.entry ++ ['\n']), ?_⟩
      rw [file]
      exact { grown with
        recovers := grown.recovers.trans nothing.valueAt_cons
        plain := restores.plain }
  | refused file memtable =>
      refine ⟨changes, by rw [get_eq_shown, memtable, ← get_eq_shown, shows_], text, ?_⟩
      rw [file inStep]
      exact restores

/-- A change that fails is not in the memtable. -/
theorem Change.get_of_error {error : IoError} (failed : (change.run engine).2 = .error error) :
    (change.run engine).1.get = engine.get := by
  have tried := Change.tried engine change
  generalize (change.run engine).1 = after at tried ⊢
  generalize (change.run engine).2 = answer at tried failed
  cases tried with
  | stored _ _ _ => cases failed
  | kept _ _ memtable => rw [get_eq_shown, memtable, ← get_eq_shown]
  | refused _ memtable => rw [get_eq_shown, memtable, ← get_eq_shown]

end Appends

/-! ## Whole runs -/

section Runs

variable {history : List (Systems.Transition StorageEngine Trial (Except IoError Unit))}
  {engine : StorageEngine}

theorem Restores.inAccord {file : ByteArray} {changes : List Change} {text : List Char}
    (restores : Restores file changes text) {faults : List (Option Fault)}
    (opened : StorageEngine.new file faults = .ok engine) : InAccord engine := by
  have faithful := restores.faithful opened
  rcases faithful.restores with ⟨text, restored⟩
  refine ⟨changes, faithful.shows_, text, ?_⟩
  rw [StorageEngine.dropped, faithful.buffer, ByteArray.append_empty]
  exact restored

theorem Trials.inAccord (run : Trials history engine)
    (meets : Meets Trial.InStep history) : InAccord engine := by
  induction run with
  | start begins =>
      rcases begins with ⟨faults, opened⟩
      exact restores_empty.inAccord opened
  | @next _ _ after trial _ _ stepped inductionHypothesis =>
      have before := inductionHypothesis meets.earlier
      cases trial with
      | attempt change =>
          have returned : change.run _ = (after, _) := Option.some.inj stepped
          have accord := before.attempt meets.last
          rw [returned] at accord
          exact accord
      | reopen faults =>
          rcases Option.map_eq_some_iff.mp stepped with ⟨opened, returned, equal⟩
          cases equal
          rcases before with ⟨changes, _, text, restores⟩
          exact restores.inAccord (toOption_eq_some.mp returned)

/-- **Failed changes have no effect.**  In every run whose changes are in step, the
engine can be dropped at any time, and the directory then opens with what the
engine showed.  So a change that failed is visible neither before nor afterwards. -/
theorem failed_changes_invisible (run : Trials history engine)
    (meets : Meets Trial.InStep history) (faults : List (Option Fault)) :
    (Exists fun opened => StorageEngine.new engine.dropped faults = .ok opened ∧
      forall key, opened.get key = engine.get key) ∧
    forall transition, transition ∈ history -> forall change,
      transition.event = .attempt change -> transition.output ≠ .ok () ->
        transition.target.get = transition.source.get := by
  constructor
  · rcases run.inAccord meets with ⟨changes, shows_, text, restores⟩
    rcases restores.opens faults with ⟨opened, opens, _, shown_⟩
    refine ⟨opened, opens, fun key => ?_⟩
    rw [get_eq_shown, shown_, shows_]
  · intro transition listed change tried failed
    rcases List.append_of_mem listed with ⟨newer, older, rfl⟩
    have stepped := (run.split).2
    rw [tried] at stepped
    have returned : change.run transition.source = (transition.target, transition.output) :=
      Option.some.inj stepped
    cases answer : transition.output with
    | ok value => exact absurd answer failed
    | error error =>
        have failedRun : (change.run transition.source).2 = .error error := by
          rw [returned, answer]
        have same := Change.get_of_error failedRun
        rw [returned] at same
        exact same

end Runs

theorem trials_start : trials.Starts StorageEngine.empty := ⟨[], StorageEngine.new_empty⟩

set_option maxRecDepth 100000 in
/-- A key is stored.  The next put of it fails before anything is written, another one
of the stored value fails in the sync, and a deletion succeeds. -/
theorem failed_changes_invisible_overwriting :
    Exists fun history => Exists fun engine => Trials history engine ∧
      Meets Trial.InStep history ∧
      Exists fun opened => StorageEngine.new engine.dropped [] = .ok opened ∧
        opened.get "k" = some "a" := by
  have checked : (trials.execute [.reopen [none, some (.write 0), some .sync],
      .attempt (.put "k" "a"), .attempt (.put "k" "b"), .attempt (.put "k" "a"),
      .attempt (.delete "j")] StorageEngine.empty).any (fun result =>
        decide (Meets Trial.InStep result.1) &&
        decide (result.2.get "k" = some "a")) = true := by decide +kernel
  rcases System.exists_run trials_start checked with ⟨history, engine, run, holds⟩
  rcases Bool.and_eq_true_iff.mp holds with ⟨decided, stored⟩
  have meets := of_decide_eq_true decided
  rcases (failed_changes_invisible run meets []).1 with ⟨opened, opens, same⟩
  exact ⟨history, engine, run, meets, opened, opens, by rw [same, of_decide_eq_true stored]⟩

set_option maxRecDepth 100000 in
/-- The sync of a put fails: the put is reported as failed and not in the memtable,
but it is there after the next opening. -/
theorem failed_change_returns :
    ¬ forall history engine, Trials history engine -> forall faults,
      Exists fun opened => StorageEngine.new engine.dropped faults = .ok opened ∧
        forall key, opened.get key = engine.get key := by
  intro invisible
  have checked : (trials.execute [.reopen [some .sync], .attempt (.put "k" "v")]
      StorageEngine.empty).any (fun result => decide (result.2.get "k" = none ∧
        (StorageEngine.new result.2.dropped []).toOption.map (fun opened => opened.get "k") =
          some (some "v"))) = true := by decide +kernel
  rcases System.exists_run trials_start checked with ⟨history, engine, run, holds⟩
  rcases of_decide_eq_true holds with ⟨missing, found⟩
  rcases invisible history engine run [] with ⟨opened, opens, same⟩
  rw [opens, Except.toOption, Option.map_some, same, missing] at found
  cases found

end Storage
end RaftStore
