import RaftStore.Storage.Wal
import Mathlib.Data.Finset.Card

namespace RaftStore
namespace Storage

/-!
# The storage engine

This file embeds `storage/memtable.rs` and `storage/engine.rs`.  The sorted map
of the source is a `Std.ExtTreeMap`.  The byte count of the memtable is in range
here, since a file holds all that it counts.
-/

/-! ## The memtable -/

/-- The in-memory table, with the bytes of all that was ever written to it.  A key
without a value has been deleted. -/
structure Memtable where
  entries : Std.ExtTreeMap String (Option String)
  sizeBytes : Nat

namespace Memtable

/-- Create a new, empty memtable. -/
def new : Memtable := ⟨∅, 0⟩

/-- Insert or update a key-value pair, and return the size that was added. -/
def put (memtable : Memtable) (key value : String) : Memtable × Nat :=
  let addedSize := key.utf8ByteSize + value.utf8ByteSize
  (⟨memtable.entries.insert key (some value), memtable.sizeBytes + addedSize⟩, addedSize)

/-- Mark a key as deleted, and return the size that was added. -/
def delete (memtable : Memtable) (key : String) : Memtable × Nat :=
  let addedSize := key.utf8ByteSize
  (⟨memtable.entries.insert key none, memtable.sizeBytes + addedSize⟩, addedSize)

/-- Look up a key; a deleted key is found without a value. -/
def get (memtable : Memtable) (key : String) : Option (Option String) :=
  memtable.entries[key]?

/-- How many bytes the memtable says that it uses. -/
def size (memtable : Memtable) : Nat := memtable.sizeBytes

/-- How many entries there are, deleted keys included. -/
def len (memtable : Memtable) : Nat := memtable.entries.size

def isEmpty (memtable : Memtable) : Bool := memtable.entries.isEmpty

/-- The entries in the order of the keys. -/
def iter (memtable : Memtable) : List (String × Option String) := memtable.entries.toList

/-- Clear the memtable completely. -/
def clear (_ : Memtable) : Memtable := ⟨∅, 0⟩

theorem get_put (memtable : Memtable) (key value other : String) :
    (memtable.put key value).1.get other =
      if key = other then some (some value) else memtable.get other := by
  simp [get, put, Std.ExtTreeMap.getElem?_insert]

theorem get_delete (memtable : Memtable) (key other : String) :
    (memtable.delete key).1.get other = if key = other then some none else memtable.get other := by
  simp [get, delete, Std.ExtTreeMap.getElem?_insert]

end Memtable

/-! ## The engine -/

/-- The storage engine: write-ahead log and memtable. -/
structure StorageEngine where
  wal : Wal
  memtable : Memtable

namespace StorageEngine

/-- Bring one entry of the log back into the memtable. -/
def recover (memtable : Memtable) (entry : WalEntry) : Memtable :=
  match entry.operation with
  | .put => (memtable.put entry.key (entry.value.getD "")).1
  | .delete => (memtable.delete entry.key).1

/-- Open the engine on the file of a log. -/
def new (file : ByteArray) (faults : List (Option Fault)) : Except IoError StorageEngine := do
  let wal := Wal.new file faults
  let entries <- wal.replay
  return ⟨wal, entries.foldl recover Memtable.new⟩

/-- Store a key-value pair. -/
def put (engine : StorageEngine) (key value : String) : StorageEngine × Except IoError Unit :=
  match engine.wal.append ⟨.put, key, some value⟩ with
  | (wal, .error error) => ({ engine with wal := wal }, .error error)
  | (wal, .ok ()) => (⟨wal, (engine.memtable.put key value).1⟩, .ok ())

/-- Delete a key. -/
def delete (engine : StorageEngine) (key : String) : StorageEngine × Except IoError Unit :=
  match engine.wal.append ⟨.delete, key, none⟩ with
  | (wal, .error error) => ({ engine with wal := wal }, .error error)
  | (wal, .ok ()) => (⟨wal, (engine.memtable.delete key).1⟩, .ok ())

/-- Look up a key. -/
def get (engine : StorageEngine) (key : String) : Option String :=
  match engine.memtable.get key with
  | some (some value) => some value
  | some none => none
  | none => none

theorem get_eq_join (engine : StorageEngine) (key : String) :
    engine.get key = (engine.memtable.get key).join := by
  unfold get
  split <;> simp_all

theorem new_of_replay {file : ByteArray} {faults : List (Option Fault)} {entries : List WalEntry}
    (replayed : (Wal.new file faults).replay = .ok entries) :
    new file faults = .ok ⟨Wal.new file faults, entries.foldl recover Memtable.new⟩ := by
  simp only [new]
  rw [replayed]
  rfl

/-- The log does not matter for what is found. -/
theorem get_mk_put (wal other : Wal) (memtable : Memtable) (key value : String) :
    get ⟨wal, (memtable.put key value).1⟩ =
      Function.update (get ⟨other, memtable⟩) key (some value) := by
  funext place
  rw [get_eq_join, Memtable.get_put, Function.update_apply, get_eq_join]
  by_cases same : key = place
  · simp [same]
  · simp [same, Ne.symm same]

theorem get_mk_delete (wal other : Wal) (memtable : Memtable) (key : String) :
    get ⟨wal, (memtable.delete key).1⟩ =
      Function.update (get ⟨other, memtable⟩) key none := by
  funext place
  rw [get_eq_join, Memtable.get_delete, Function.update_apply, get_eq_join]
  by_cases same : key = place
  · simp [same]
  · simp [same, Ne.symm same]

/-! ## Engines whose appends succeed -/

/-- No coming append fails. -/
def Reliable (engine : StorageEngine) : Prop :=
  forall fault, fault ∈ engine.wal.faults -> fault = none

theorem Reliable.append {engine : StorageEngine} (reliable : engine.Reliable) (entry : WalEntry) :
    Exists fun wal => engine.wal.append entry = (wal, .ok ()) ∧
      forall memtable, Reliable ⟨wal, memtable⟩ := by
  unfold Wal.append
  unfold Reliable at reliable ⊢
  generalize engine.wal.faults = faults at reliable ⊢
  cases faults with
  | nil => exact ⟨_, rfl, fun _ _ listed => (List.not_mem_nil listed).elim⟩
  | cons fault rest =>
      cases reliable fault List.mem_cons_self
      exact ⟨_, rfl, fun _ other listed => reliable other (List.mem_cons_of_mem _ listed)⟩

theorem Reliable.put {engine : StorageEngine} (reliable : engine.Reliable) (key value : String) :
    (engine.put key value).1.Reliable ∧
      (engine.put key value).1.get = Function.update engine.get key (some value) := by
  rcases reliable.append ⟨.put, key, some value⟩ with ⟨wal, appended, later⟩
  unfold StorageEngine.put
  rw [appended]
  exact ⟨later _, get_mk_put _ engine.wal _ key value⟩

theorem Reliable.delete {engine : StorageEngine} (reliable : engine.Reliable) (key : String) :
    (engine.delete key).1.Reliable ∧
      (engine.delete key).1.get = Function.update engine.get key none := by
  rcases reliable.append ⟨.delete, key, none⟩ with ⟨wal, appended, later⟩
  unfold StorageEngine.delete
  rw [appended]
  exact ⟨later _, get_mk_delete _ engine.wal _ key⟩

/-! ## Undisturbed engines -/

/-- The log holds these clean entries and the memtable is made from them. -/
structure Holds (engine : StorageEngine) (entries : List WalEntry) : Prop where
  wal : engine.wal.Holds entries
  clean : forall entry, entry ∈ entries -> entry.Clean
  memtable : engine.memtable = entries.foldl recover Memtable.new

variable {engine : StorageEngine} {entries : List WalEntry}

/-- The engine on a new file. -/
def empty : StorageEngine := ⟨Wal.new ByteArray.empty [], Memtable.new⟩

theorem holds_empty : empty.Holds [] :=
  ⟨Wal.holds_new, fun _ listed => (List.not_mem_nil listed).elim, rfl⟩

theorem get_empty : empty.get = fun _ => none := by
  funext key
  simp [get_eq_join, empty, Memtable.get, Memtable.new]

/-- An engine that is opened on a new file is empty. -/
theorem new_empty : new ByteArray.empty [] = .ok empty :=
  new_of_replay (Wal.holds_new.replay fun _ listed => (List.not_mem_nil listed).elim)

/-- Opening the file again brings back the same contents. -/
theorem Holds.reopen (holds : engine.Holds entries) :
    Exists fun opened => new engine.wal.file [] = .ok opened ∧ opened.Holds entries ∧
      opened.get = engine.get := by
  have replayed := holds.wal.reopen.replay holds.clean
  refine ⟨⟨Wal.new engine.wal.file [], engine.memtable⟩, ?_,
    ⟨holds.wal.reopen, holds.clean, holds.memtable⟩, rfl⟩
  rw [new_of_replay replayed, holds.memtable]

theorem Holds.append (holds : engine.Holds entries) {entry : WalEntry} (clean : entry.Clean) :
    Exists fun wal => engine.wal.append entry = (wal, .ok ()) ∧
      Holds ⟨wal, recover engine.memtable entry⟩ (entries ++ [entry]) := by
  rcases holds.wal.append entry with ⟨wal, appended, held⟩
  refine ⟨wal, appended, held, ?_, ?_⟩
  · intro other listed
    rcases List.mem_append.mp listed with before | now
    · exact holds.clean other before
    · rw [List.mem_singleton.mp now]
      exact clean
  · rw [List.foldl_append, ← holds.memtable]
    rfl

theorem Holds.put (holds : engine.Holds entries) {key value : String} (cleanKey : CleanText key)
    (cleanValue : CleanText value) :
    Exists fun after => engine.put key value = (after, .ok ()) ∧
      after.Holds (entries ++ [⟨.put, key, some value⟩]) := by
  rcases holds.append (.put cleanKey cleanValue) with ⟨wal, appended, held⟩
  refine ⟨⟨wal, (engine.memtable.put key value).1⟩, ?_, held⟩
  unfold StorageEngine.put
  rw [appended]

theorem Holds.delete (holds : engine.Holds entries) {key : String} (cleanKey : CleanText key) :
    Exists fun after => engine.delete key = (after, .ok ()) ∧
      after.Holds (entries ++ [⟨.delete, key, none⟩]) := by
  rcases holds.append (.delete cleanKey) with ⟨wal, appended, held⟩
  refine ⟨⟨wal, (engine.memtable.delete key).1⟩, ?_, held⟩
  unfold StorageEngine.delete
  rw [appended]

end StorageEngine
end Storage
end RaftStore
