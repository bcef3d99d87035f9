import RaftStore.Collections.Texts
import Mathlib.Data.List.Basic

namespace RaftStore
namespace Storage

open Collections

/-!
# The write-ahead log

This file embeds `storage/wal.rs`.  The file is a sequence of bytes, which
`replay` first has to decode; the writer in front of it keeps in a buffer the
bytes that a failed write has left behind.

What the disk will do is part of the state: `faults` lists how the coming
appends go, and an append without an entry in the list succeeds.
-/

/-- The type of operation stored in the log. -/
inductive Operation where
  | put
  | delete
  deriving DecidableEq, Repr

/-- A single entry of the log. -/
structure WalEntry where
  operation : Operation
  key : String
  value : Option String
  deriving DecidableEq, Repr

/-- The text line of an entry. -/
def serializeEntry (entry : WalEntry) : String :=
  match entry.operation with
  | .put => "PUT|" ++ entry.key ++ "|" ++ entry.value.getD "" ++ "\n"
  | .delete => "DELETE|" ++ entry.key ++ "\n"

/-! ## Reading -/

/-- Strip one carriage return from the end of a line. -/
def chompReturn (line : List Char) : List Char :=
  if line.getLast? = some '\r' then line.dropLast else line

/-- The lines of the pieces between line feeds.  What stands behind the last line
feed is a line only if it is not empty, and keeps its carriage return. -/
def linesOf : List (List Char) -> List (List Char)
  | [] => []
  | [last] => if last = [] then [] else [last]
  | piece :: next :: more => chompReturn piece :: linesOf (next :: more)

/-- `str::lines`. -/
def lines (text : List Char) : List (List Char) :=
  linesOf (text.splitOn '\n')

/-- The entry on a line, if it is not malformed. -/
def parseLine (line : List Char) : Option WalEntry :=
  match line.splitOn '|' with
  | [operation, key, value] =>
      if operation = "PUT".toList then
        some ⟨.put, String.ofList key, some (String.ofList value)⟩
      else none
  | [operation, key] =>
      if operation = "DELETE".toList then some ⟨.delete, String.ofList key, none⟩ else none
  | _ => none

/-- The entries of a text, malformed lines skipped. -/
def parse (text : String) : List WalEntry :=
  (lines text.toList).filterMap parseLine

/-! ## The log on disk -/

/-- How an append can fail: in the buffered write, in the flush, or in the sync.
The first two have moved some bytes to the file before. -/
inductive Fault where
  | write (moved : Nat)
  | flush (moved : Nat)
  | sync
  deriving DecidableEq, Repr

/-- The errors a storage operation reports. -/
inductive IoError where
  | failed
  | invalidData
  deriving DecidableEq, Repr

/-- The write-ahead log: its file, the bytes still in the writer's buffer, and how
the coming appends go. -/
structure Wal where
  file : ByteArray
  buffer : ByteArray
  faults : List (Option Fault)

namespace Wal

/-- Open the log on a file. -/
def new (file : ByteArray) (faults : List (Option Fault)) : Wal := ⟨file, ByteArray.empty, faults⟩

/-- Append one entry and sync. -/
def append (wal : Wal) (entry : WalEntry) : Wal × Except IoError Unit :=
  let serialized := (serializeEntry entry).toByteArray
  let whole := wal.buffer ++ serialized
  let faults := wal.faults.tail
  match wal.faults.head? with
  | some (some (.write moved)) =>
      (⟨wal.file ++ whole.extract 0 moved, wal.buffer.extract moved wal.buffer.size, faults⟩,
        .error .failed)
  | some (some (.flush moved)) =>
      (⟨wal.file ++ whole.extract 0 moved, whole.extract moved whole.size, faults⟩, .error .failed)
  | some (some .sync) => (⟨wal.file ++ whole, ByteArray.empty, faults⟩, .error .failed)
  | _ => (⟨wal.file ++ whole, ByteArray.empty, faults⟩, .ok ())

/-- Read all entries of the file. -/
def replay (wal : Wal) : Except IoError (List WalEntry) :=
  match String.fromUTF8? wal.file with
  | none => .error .invalidData
  | some contents => .ok (parse contents)

end Wal

/-! ## Records without delimiters -/

/-- A text without the characters that structure the file. -/
def CleanText (text : String) : Prop :=
  '|' ∉ text.toList ∧ '\n' ∉ text.toList ∧ '\r' ∉ text.toList

instance (text : String) : Decidable (CleanText text) :=
  inferInstanceAs (Decidable ('|' ∉ text.toList ∧ '\n' ∉ text.toList ∧ '\r' ∉ text.toList))

/-- An entry as the engine writes it, of clean texts: a put with a value or a
delete without one. -/
inductive WalEntry.Clean : WalEntry -> Prop
  | put {key value : String} : CleanText key -> CleanText value -> Clean ⟨.put, key, some value⟩
  | delete {key : String} : CleanText key -> Clean ⟨.delete, key, none⟩

/-- The line of an entry without its line feed. -/
def lineOf (entry : WalEntry) : List Char :=
  match entry.operation with
  | .put => "PUT".toList ++ '|' :: (entry.key.toList ++ '|' :: (entry.value.getD "").toList)
  | .delete => "DELETE".toList ++ '|' :: entry.key.toList

theorem toList_serializeEntry (entry : WalEntry) :
    (serializeEntry entry).toList = lineOf entry ++ ['\n'] := by
  unfold serializeEntry lineOf
  cases entry.operation <;> simp

section Splitting

variable {piece : List Char} {separator : Char}

theorem splitOn_of_notMem (absent : separator ∉ piece) : piece.splitOn separator = [piece] := by
  have single : ([separator].intercalate [piece]).splitOn separator = [piece] :=
    List.splitOn_intercalate separator (by simpa using absent) (by simp)
  simpa using single

theorem splitOn_append_separator (piece rest : List Char) :
    (piece ++ separator :: rest).splitOn separator =
      piece.splitOn separator ++ rest.splitOn separator :=
  List.splitOnP_append_cons piece rest (by simp)

/-- A piece in front of a separator it does not contain. -/
theorem splitOn_append_cons (absent : separator ∉ piece) (rest : List Char) :
    (piece ++ separator :: rest).splitOn separator = piece :: rest.splitOn separator := by
  rw [splitOn_append_separator, splitOn_of_notMem absent]
  rfl

theorem linesOf_append (pieces : List (List Char)) {more : List (List Char)} (behind : more ≠ []) :
    linesOf (pieces ++ more) = pieces.map chompReturn ++ linesOf more := by
  induction pieces with
  | nil => rfl
  | cons piece rest inductionHypothesis =>
      have someMore : rest ++ more ≠ [] := List.append_ne_nil_of_right_ne_nil _ behind
      rcases List.exists_cons_of_ne_nil someMore with ⟨next, others, split⟩
      rw [List.cons_append, split, linesOf, ← split, inductionHypothesis]
      rfl

/-- The lines in front of a line feed, and those behind it. -/
theorem lines_append_feed (text rest : List Char) :
    lines (text ++ '\n' :: rest) = (text.splitOn '\n').map chompReturn ++ lines rest := by
  unfold lines
  rw [splitOn_append_separator, linesOf_append _ (List.splitOn_ne_nil _ _)]

/-- A piece of a text does not have the separator, and has nothing that the text does
not have. -/
theorem of_mem_splitOn {text : List Char} (listed : piece ∈ text.splitOn separator) :
    separator ∉ piece ∧ piece ⊆ text := by
  induction text generalizing piece with
  | nil =>
      have empty : piece = [] := List.mem_singleton.mp listed
      rw [empty]
      exact ⟨List.not_mem_nil, List.Subset.refl _⟩
  | cons character rest inductionHypothesis =>
      have later : forall other, other ∈ rest.splitOn separator ->
          separator ∉ other ∧ other ⊆ character :: rest := by
        intro other among
        rcases inductionHypothesis among with ⟨absent, inside⟩
        exact ⟨absent, List.subset_cons_of_subset character inside⟩
      rw [List.splitOn_eq_splitOnP] at later listed
      rw [List.splitOnP_cons_eq_if_modifyHead] at listed
      split at listed
      · rcases List.mem_cons.mp listed with rfl | behind
        · exact ⟨List.not_mem_nil, List.nil_subset _⟩
        · exact later piece behind
      · next different =>
          rcases List.exists_cons_of_ne_nil (List.splitOnP_ne_nil (· == separator) rest) with
            ⟨head, others, split⟩
          rw [split] at later listed
          rcases List.mem_cons.mp listed with rfl | behind
          · rcases later head List.mem_cons_self with ⟨absent, inside⟩
            refine ⟨?_, List.cons_subset.mpr ⟨List.mem_cons_self, inside⟩⟩
            intro present
            rcases List.mem_cons.mp present with same | found
            · exact different (by rw [same]; exact beq_self_eq_true _)
            · exact absent found
          · exact later piece (List.mem_cons_of_mem _ behind)

theorem subset_chompReturn (line : List Char) : chompReturn line ⊆ line := by
  unfold chompReturn
  split
  · exact List.dropLast_subset line
  · exact List.Subset.refl line

/-- No line that is made of pieces without line feeds has one. -/
theorem feed_notMem_linesOf {pieces : List (List Char)}
    (single : forall piece, piece ∈ pieces -> '\n' ∉ piece) {line : List Char}
    (listed : line ∈ linesOf pieces) : '\n' ∉ line := by
  fun_induction linesOf pieces with
  | case1 => exact (List.not_mem_nil listed).elim
  | case2 => exact (List.not_mem_nil listed).elim
  | case3 last => exact single line listed
  | case4 piece next more inductionHypothesis =>
      rcases List.mem_cons.mp listed with rfl | later
      · exact fun inside => single piece List.mem_cons_self (subset_chompReturn piece inside)
      · exact inductionHypothesis (fun other among => single other (List.mem_cons_of_mem _ among)) later

/-- A line of two fields is a delete or malformed. -/
theorem parseLine_two (operation key : List Char) (plain : '|' ∉ operation) (plainKey : '|' ∉ key) :
    parseLine (operation ++ '|' :: key) =
      if operation = "DELETE".toList then some ⟨.delete, String.ofList key, none⟩ else none := by
  unfold parseLine
  rw [splitOn_append_cons plain, splitOn_of_notMem plainKey]

/-- A line of three fields is a put or malformed. -/
theorem parseLine_three (operation key value : List Char) (plain : '|' ∉ operation)
    (plainKey : '|' ∉ key) (plainValue : '|' ∉ value) :
    parseLine (operation ++ '|' :: (key ++ '|' :: value)) =
      if operation = "PUT".toList then
        some ⟨.put, String.ofList key, some (String.ofList value)⟩ else none := by
  unfold parseLine
  rw [splitOn_append_cons plain, splitOn_append_cons plainKey, splitOn_of_notMem plainValue]

end Splitting

section Clean

variable {entry : WalEntry}

theorem WalEntry.Clean.parseLine_lineOf (clean : entry.Clean) :
    parseLine (lineOf entry) = some entry := by
  cases clean with
  | @put key value cleanKey cleanValue =>
      have spelled : lineOf ⟨.put, key, some value⟩ =
          "PUT".toList ++ '|' :: (key.toList ++ '|' :: value.toList) := rfl
      rw [spelled, parseLine_three _ _ _ (by decide) cleanKey.1 cleanValue.1, if_pos rfl,
        String.ofList_toList, String.ofList_toList]
  | @delete key cleanKey =>
      have spelled : lineOf ⟨.delete, key, none⟩ = "DELETE".toList ++ '|' :: key.toList := rfl
      rw [spelled, parseLine_two _ _ (by decide) cleanKey.1, if_pos rfl, String.ofList_toList]

theorem WalEntry.Clean.notMem_lineOf (clean : entry.Clean) :
    '\n' ∉ lineOf entry ∧ '\r' ∉ lineOf entry := by
  cases clean with
  | put key value => simp [lineOf, key.2.1, key.2.2, value.2.1, value.2.2]
  | delete key => simp [lineOf, key.2.1, key.2.2]

theorem chompReturn_of_notMem {line : List Char} (absent : '\r' ∉ line) : chompReturn line = line := by
  unfold chompReturn
  rw [if_neg]
  intro last
  exact absent (List.mem_of_getLast? last)

theorem lines_append {line : List Char} (feed : '\n' ∉ line) (carriage : '\r' ∉ line)
    (rest : List Char) : lines (line ++ '\n' :: rest) = line :: lines rest := by
  rw [lines_append_feed, splitOn_of_notMem feed, List.map_singleton,
    chompReturn_of_notMem carriage, List.singleton_append]

/-- The log holds exactly these entries, and nothing is left in the buffer. -/
structure Wal.Holds (wal : Wal) (entries : List WalEntry) : Prop where
  text : Exists fun text : String => wal.file = text.toByteArray ∧
    text.toList = entries.flatMap (fun entry => lineOf entry ++ ['\n'])
  buffer : wal.buffer = ByteArray.empty
  faultless : wal.faults = []

theorem Wal.holds_new : (Wal.new ByteArray.empty []).Holds [] :=
  ⟨⟨"", rfl, rfl⟩, rfl, rfl⟩

/-- Reopening the file of a log. -/
theorem Wal.Holds.reopen {wal : Wal} {entries : List WalEntry} (holds : wal.Holds entries) :
    (Wal.new wal.file []).Holds entries :=
  ⟨holds.text, rfl, rfl⟩

theorem Wal.Holds.append {wal : Wal} {entries : List WalEntry} (holds : wal.Holds entries)
    (entry : WalEntry) : Exists fun after => wal.append entry = (after, .ok ()) ∧
      after.Holds (entries ++ [entry]) := by
  rcases holds.text with ⟨text, file, characters⟩
  unfold Wal.append
  rw [holds.faultless]
  refine ⟨_, rfl, ⟨text ++ serializeEntry entry, ?_, ?_⟩, rfl, rfl⟩
  · rw [holds.buffer, file, String.toByteArray_append]
    simp
  · rw [String.toList_append, characters, toList_serializeEntry]
    simp

theorem filterMap_lines (entries : List WalEntry) (clean : forall entry, entry ∈ entries -> entry.Clean) :
    (lines (entries.flatMap (fun entry => lineOf entry ++ ['\n']))).filterMap parseLine = entries := by
  induction entries with
  | nil => rfl
  | cons entry rest inductionHypothesis =>
      have first := clean entry List.mem_cons_self
      have others := inductionHypothesis (fun other listed =>
        clean other (List.mem_cons_of_mem _ listed))
      rw [List.flatMap_cons, List.append_assoc, List.singleton_append,
        lines_append first.notMem_lineOf.1 first.notMem_lineOf.2,
        List.filterMap_cons_some first.parseLine_lineOf, others]

/-- Replay of a file that holds a text. -/
theorem Wal.replay_of_text {wal : Wal} {text : String} (file : wal.file = text.toByteArray) :
    wal.replay = .ok (parse text) := by
  unfold Wal.replay
  rw [fromUTF8?_eq_some.mpr file]

/-- Replay returns what the log holds. -/
theorem Wal.Holds.replay {wal : Wal} {entries : List WalEntry} (holds : wal.Holds entries)
    (clean : forall entry, entry ∈ entries -> entry.Clean) : wal.replay = .ok entries := by
  rcases holds.text with ⟨text, file, characters⟩
  rw [Wal.replay_of_text file, parse, characters, filterMap_lines entries clean]

end Clean
end Storage
end RaftStore
