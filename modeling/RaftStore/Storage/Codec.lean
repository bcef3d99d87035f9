import RaftStore.Storage.Reopening

namespace RaftStore
namespace Storage

/-!
# The records that come back

The lines of some entries, one behind the other, are read back as the same
entries exactly if no text in them has a delimiter or a line feed and no line ends
with a carriage return.

Whatever is read has fields without delimiters and line feeds.  So if the entries
themselves come back, none of their texts has one, no line is split or merged, and
all that the reader can do to an entry is to strip a carriage return from its last
field.
-/

/-- An entry as the engine writes it: a put with a value or a delete without one. -/
inductive WalEntry.Written : WalEntry -> Prop
  | put (key value : String) : Written ⟨.put, key, some value⟩
  | delete (key : String) : Written ⟨.delete, key, none⟩

/-- A text in which nothing is taken for the end of a field or of a line. -/
def PlainText (text : String) : Prop := '|' ∉ text.toList ∧ '\n' ∉ text.toList

instance (text : String) : Decidable (PlainText text) :=
  inferInstanceAs (Decidable (_ ∧ _))

/-- The last field of the line of an entry. -/
def WalEntry.lastField (entry : WalEntry) : String :=
  match entry.operation with
  | .put => entry.value.getD ""
  | .delete => entry.key

/-- The texts of the entry are plain, and its line does not end with a carriage
return. -/
def WalEntry.Legible (entry : WalEntry) : Prop :=
  PlainText entry.key ∧ PlainText (entry.value.getD "") ∧
    entry.lastField.toList.getLast? ≠ some '\r'

instance (entry : WalEntry) : Decidable entry.Legible :=
  inferInstanceAs (Decidable (_ ∧ _ ∧ _))

/-- The file that holds the lines of some entries. -/
def fileOf (entries : List WalEntry) : ByteArray :=
  (String.join (entries.map serializeEntry)).toByteArray

/-! ## What is read -/

section Reading

variable {text : List Char} {entry : WalEntry}

/-- What is read from a line has no delimiters, nor line feeds if the line has none. -/
theorem plain_of_parseLine {line : List Char} (feed : '\n' ∉ line)
    (parsed : parseLine line = some entry) :
    PlainText entry.key ∧ PlainText (entry.value.getD "") := by
  have plain : forall field, field ∈ line.splitOn '|' -> PlainText (String.ofList field) := by
    intro field listed
    rcases of_mem_splitOn listed with ⟨absent, inside⟩
    unfold PlainText
    rw [String.toList_ofList]
    exact ⟨absent, fun present => feed (inside present)⟩
  have empty : PlainText "" := by decide
  unfold parseLine at parsed
  split at parsed
  · next operation key value fields =>
      rw [fields] at plain
      split at parsed
      · cases parsed
        exact ⟨plain key (by simp), plain value (by simp)⟩
      · cases parsed
  · next operation key fields =>
      rw [fields] at plain
      split at parsed
      · cases parsed
        exact ⟨plain key (by simp), empty⟩
      · cases parsed
  · cases parsed

/-- So has everything that is read from a text. -/
theorem plain_of_mem_entriesOf (listed : entry ∈ entriesOf text) :
    PlainText entry.key ∧ PlainText (entry.value.getD "") := by
  rcases List.mem_filterMap.mp listed with ⟨line, inside, parsed⟩
  have feed : '\n' ∉ line :=
    feed_notMem_linesOf (fun _ among => (of_mem_splitOn among).1) inside
  exact plain_of_parseLine feed parsed

end Reading

/-! ## Plain entries -/

/-- The entry without a carriage return at the end of its last field. -/
def WalEntry.stripped (entry : WalEntry) : WalEntry :=
  match entry.operation with
  | .put => { entry with value := some (String.ofList (chompReturn (entry.value.getD "").toList)) }
  | .delete => { entry with key := String.ofList (chompReturn entry.key.toList) }

section Plain

variable {entry : WalEntry}

/-- A carriage return is stripped from what stands behind another character. -/
theorem chompReturn_append_cons (front back : List Char) {middle : Char} (other : middle ≠ '\r') :
    chompReturn (front ++ middle :: back) = front ++ middle :: chompReturn back := by
  unfold chompReturn
  rw [getLast?_append_cons]
  cases last : back.getLast? with
  | none => simp [other]
  | some character =>
      have nonempty : back ≠ [] := by
        rintro rfl
        cases last
      simp only [Option.getD_some, Option.some.injEq]
      split
      · rw [List.dropLast_append_cons, List.dropLast_cons_of_ne_nil nonempty]
      · rfl

/-- The line of a plain entry is read as the entry without a carriage return at the
end. -/
theorem entriesOf_plain (written : entry.Written) (plainKey : PlainText entry.key)
    (plainValue : PlainText (entry.value.getD "")) :
    entriesOf (lineOf entry ++ ['\n']) = [entry.stripped] := by
  cases written with
  | put key value =>
      have spelled : lineOf ⟨.put, key, some value⟩ =
          "PUT".toList ++ '|' :: (key.toList ++ '|' :: value.toList) := rfl
      have feed : '\n' ∉ lineOf ⟨.put, key, some value⟩ := by
        have inKey : '\n' ∉ key.toList := plainKey.2
        have inValue : '\n' ∉ value.toList := plainValue.2
        simp [spelled, inKey, inValue]
      have absent : '|' ∉ chompReturn value.toList :=
        fun inside => plainValue.1 (subset_chompReturn _ inside)
      rw [entriesOf_stripped feed, spelled, chompReturn_append_cons _ _ (by decide),
        chompReturn_append_cons _ _ (by decide),
        parseLine_three _ _ _ (by decide) plainKey.1 absent, if_pos rfl, String.ofList_toList]
      rfl
  | delete key =>
      have spelled : lineOf ⟨.delete, key, none⟩ = "DELETE".toList ++ '|' :: key.toList := rfl
      have feed : '\n' ∉ lineOf ⟨.delete, key, none⟩ := by
        have inKey : '\n' ∉ key.toList := plainKey.2
        simp [spelled, inKey]
      have absent : '|' ∉ chompReturn key.toList :=
        fun inside => plainKey.1 (subset_chompReturn _ inside)
      rw [entriesOf_stripped feed, spelled, chompReturn_append_cons _ _ (by decide),
        parseLine_two _ _ (by decide) absent, if_pos rfl]
      rfl

theorem chompReturn_eq_self {line : List Char} :
    chompReturn line = line <-> line.getLast? ≠ some '\r' := by
  constructor
  · intro same last
    rw [chompReturn, if_pos last] at same
    have shorter := congrArg List.length same
    rw [List.length_dropLast] at shorter
    have nonempty : line ≠ [] := by
      rintro rfl
      cases last
    have positive := List.length_pos_iff.mpr nonempty
    omega
  · exact fun other => if_neg other

/-- Nothing is stripped from an entry exactly if its line does not end with a
carriage return. -/
theorem stripped_eq_self (written : entry.Written) :
    entry.stripped = entry <-> entry.lastField.toList.getLast? ≠ some '\r' := by
  have back : forall text : String, String.ofList (chompReturn text.toList) = text <->
      text.toList.getLast? ≠ some '\r' := by
    intro text
    rw [← chompReturn_eq_self, ← String.toList_inj, String.toList_ofList]
  cases written with
  | put key value =>
      rw [← back]
      simp [WalEntry.stripped, WalEntry.lastField]
  | delete key =>
      rw [← back]
      simp [WalEntry.stripped, WalEntry.lastField]

/-- The lines of plain entries are read one by one. -/
theorem entriesOf_lines {entries : List WalEntry}
    (written : forall entry, entry ∈ entries -> entry.Written)
    (plain : forall entry, entry ∈ entries ->
      PlainText entry.key ∧ PlainText (entry.value.getD "")) :
    entriesOf (entries.flatMap (fun entry => lineOf entry ++ ['\n'])) =
      entries.map WalEntry.stripped := by
  induction entries with
  | nil => rfl
  | cons entry rest inductionHypothesis =>
      rcases plain entry List.mem_cons_self with ⟨plainKey, plainValue⟩
      have finished : Finished (lineOf entry ++ ['\n']) := Or.inr ⟨lineOf entry, rfl⟩
      rw [List.flatMap_cons, finished.entriesOf_append,
        entriesOf_plain (written entry List.mem_cons_self) plainKey plainValue,
        inductionHypothesis (fun other listed => written other (List.mem_cons_of_mem _ listed))
          (fun other listed => plain other (List.mem_cons_of_mem _ listed))]
      rfl

end Plain

/-! ## The round trip -/

/-- Replay of a file of lines. -/
theorem replay_fileOf (entries : List WalEntry) (faults : List (Option Fault)) :
    (Wal.new (fileOf entries) faults).replay =
      .ok (entriesOf (entries.flatMap (fun entry => lineOf entry ++ ['\n']))) := by
  have characters : (String.join (entries.map serializeEntry)).toList =
      entries.flatMap (fun entry => lineOf entry ++ ['\n']) := by
    rw [String.toList_join, List.flatMap_map]
    exact List.flatMap_congr (fun entry _ => toList_serializeEntry entry)
  rw [Wal.replay_of_text rfl, parse, characters]
  rfl

/-- **The round trip.**  The lines of some entries are read back as these entries
exactly if each of them is legible. -/
theorem round_trip_iff {entries : List WalEntry}
    (written : forall entry, entry ∈ entries -> entry.Written) (faults : List (Option Fault)) :
    (Wal.new (fileOf entries) faults).replay = .ok entries <->
      forall entry, entry ∈ entries -> entry.Legible := by
  rw [replay_fileOf, Except.ok.injEq]
  constructor
  · intro same
    have plain : forall entry, entry ∈ entries ->
        PlainText entry.key ∧ PlainText (entry.value.getD "") := by
      intro entry listed
      rw [← same] at listed
      exact plain_of_mem_entriesOf listed
    rw [entriesOf_lines written plain] at same
    have unchanged : entries.map WalEntry.stripped = entries.map id := by rw [same, List.map_id]
    intro entry listed
    have kept : entry.stripped = entry := List.map_inj_left.mp unchanged entry listed
    rcases plain entry listed with ⟨plainKey, plainValue⟩
    exact ⟨plainKey, plainValue, (stripped_eq_self (written entry listed)).mp kept⟩
  · intro legible
    have unchanged : entries.map WalEntry.stripped = entries.map id := by
      apply List.map_inj_left.mpr
      intro entry listed
      exact (stripped_eq_self (written entry listed)).mpr (legible entry listed).2.2
    rw [entriesOf_lines written (fun entry listed =>
      ⟨(legible entry listed).1, (legible entry listed).2.1⟩), unchanged, List.map_id]

/-- Empty texts and a carriage return inside of a line do no harm. -/
theorem round_trip_returns :
    (Wal.new (fileOf [⟨.put, "a\r", some ""⟩, ⟨.delete, "", none⟩]) []).replay =
      .ok [⟨.put, "a\r", some ""⟩, ⟨.delete, "", none⟩] := by
  refine (round_trip_iff ?_ []).mpr (by decide)
  intro entry listed
  rcases List.mem_cons.mp listed with rfl | later
  · exact .put "a\r" ""
  · rw [List.mem_singleton.mp later]
    exact .delete ""

end Storage
end RaftStore
