import Mathlib.Algebra.Group.Nat.Defs
import Mathlib.Data.List.Infix
import Mathlib.Data.List.TakeDrop

namespace RaftStore
namespace Raft

/-!
# The replicated log

This file embeds `raft/log.rs`, together with the few facts about Rust's
machine arithmetic that the rest of the development relies on.

Terms, node ids and indices are natural numbers.  An addition whose operand
can come from a message or from a term counter is checked against the 64-bit
width, and its overflow is a panic rather than a wrapped value.  Lengths of
vectors are not checked in this way: a `Vec` never holds more than
`isize::MAX` elements, and it is the growing operation that panics.

Index zero of a log holds the sentinel.  `RaftLog.body` forgets it, so that
the entry at index `i` of the log is the last entry of the body's prefix of
length `i`.
-/

/-- The two ways in which a modelled function can abort. -/
inductive Panic where
  | overflow
  | capacity
  deriving DecidableEq, Repr

/-- The result of a function that may panic. -/
abbrev Outcome (α : Type) := Except Panic α

/-- A bind that returns has returned at both of its stages. -/
theorem Outcome.bind_eq_ok {α β : Type} {first : Outcome α} {next : α -> Outcome β}
    {result : β} :
    (first >>= next) = .ok result <->
      Exists fun value => first = .ok value ∧ next value = .ok result := by
  cases first with
  | error panic =>
      constructor
      · intro equal
        cases equal
      · rintro ⟨_, impossible, _⟩
        cases impossible
  | ok value =>
      constructor
      · intro equal
        exact ⟨value, rfl, equal⟩
      · rintro ⟨other, same, equal⟩
        cases same
        exact equal

/-- A bind returns if both of its stages do. -/
theorem Outcome.exists_bind {α β : Type} {first : Outcome α} {next : α -> Outcome β} {value : α}
    (returned : first = .ok value) (rest : Exists fun result => next value = .ok result) :
    Exists fun result => (first >>= next) = .ok result := by
  rcases rest with ⟨result, equal⟩
  exact ⟨result, Outcome.bind_eq_ok.mpr ⟨value, returned, equal⟩⟩

/-- A mapped result that returns comes from a result that returned. -/
theorem Outcome.map_eq_ok {α β : Type} {first : Outcome α} {next : α -> β} {result : β} :
    Except.map next first = .ok result <->
      Exists fun value => first = .ok value ∧ next value = result := by
  cases first <;> simp [Except.map]

/-- A bind whose second stage cannot panic returns when the first does. -/
theorem Outcome.returns_bind {α β : Type} {first : Outcome α} {next : α -> Outcome β}
    (total : forall value, Exists fun result => next value = .ok result) :
    (Exists fun result => (first >>= next) = .ok result) <->
      Exists fun value => first = .ok value := by
  constructor
  · rintro ⟨result, returned⟩
    rcases Outcome.bind_eq_ok.mp returned with ⟨value, ok, _⟩
    exact ⟨value, ok⟩
  · rintro ⟨value, ok⟩
    exact Outcome.exists_bind ok (total value)

theorem Outcome.returns_map {α β : Type} {first : Outcome α} {next : α -> β} :
    (Exists fun result => Except.map next first = .ok result) <->
      Exists fun value => first = .ok value := by
  cases first <;> simp [Except.map]

/-- The number of values of `u64` and of `usize`. -/
def wordSize : Nat := 2 ^ 64

/-- No `Vec` can hold more than `isize::MAX` bytes, and so no more elements than this.
One of larger elements panics before. -/
def vecCapacity : Nat := 2 ^ 63 - 1

/-- Addition of two machine words, as the `+` operator with overflow checks. -/
def checkedAdd (left right : Nat) : Outcome Nat :=
  if left + right < wordSize then .ok (left + right) else .error .overflow

/-- `u64::wrapping_mul`. -/
def wrappingMul (left right : Nat) : Nat := left * right % wordSize

/-- `u64::wrapping_add`. -/
def wrappingAdd (left right : Nat) : Nat := (left + right) % wordSize

theorem checkedAdd_eq_ok {left right sum : Nat} :
    checkedAdd left right = .ok sum <-> left + right < wordSize ∧ sum = left + right := by
  unfold checkedAdd
  by_cases fits : left + right < wordSize
  · rw [if_pos fits]
    simp only [fits, true_and, Except.ok.injEq, eq_comm]
  · rw [if_neg fits]
    simp only [fits, false_and, reduceCtorEq]

/-- The command stored in a log entry. -/
inductive LogCommand where
  | put (key value : String)
  | delete (key : String)
  | noop
  deriving DecidableEq, Repr

/-- A single entry in the Raft log. -/
structure LogEntry where
  term : Nat
  command : LogCommand
  deriving DecidableEq, Repr

/-- The entry that stands before the log began. -/
def sentinel : LogEntry := ⟨0, .noop⟩

/-- The Raft log: an indexed sequence of entries whose index 0 is the sentinel. -/
structure RaftLog where
  entries : List LogEntry
  deriving DecidableEq, Repr

namespace RaftLog

/-- A log with just the sentinel entry. -/
def new : RaftLog := ⟨[sentinel]⟩

/-- The entry at the given index, if the log reaches it. -/
def get (log : RaftLog) (index : Nat) : Option LogEntry :=
  log.entries[index]?

/-- The index of the last entry.  The subtraction is exact on every log that
still has its sentinel. -/
def lastIndex (log : RaftLog) : Nat :=
  log.entries.length - 1

/-- The term of the last entry, 0 if there is none. -/
def lastTerm (log : RaftLog) : Nat :=
  (log.entries.getLast?.map LogEntry.term).getD 0

/-- The term of the entry at the given index, 0 if the index is out of bounds. -/
def termAt (log : RaftLog) (index : Nat) : Nat :=
  (log.entries[index]?.map LogEntry.term).getD 0

/-- Append multiple entries at once.  The vector refuses to grow past its
capacity. -/
def appendEntries (log : RaftLog) (entries : List LogEntry) : Outcome RaftLog :=
  if log.entries.length + entries.length ≤ vecCapacity then .ok ⟨log.entries ++ entries⟩
  else .error .capacity

/-- Append a new entry to the end of the log. -/
def append (log : RaftLog) (entry : LogEntry) : Outcome RaftLog :=
  log.appendEntries [entry]

/-- Keep the indices below `index` and drop the rest. -/
def truncateFrom (log : RaftLog) (index : Nat) : RaftLog :=
  if index < log.entries.length then ⟨log.entries.take index⟩ else log

/-- The entries from `startIndex` to the end, none if it is beyond the log. -/
def entriesFrom (log : RaftLog) (startIndex : Nat) : List LogEntry :=
  if startIndex >= log.entries.length then [] else log.entries.drop startIndex

/-- How many real entries are in the log, the sentinel excluded. -/
def len (log : RaftLog) : Nat :=
  log.entries.length - 1

/-- Rebuild a log from the saved vector of entries. -/
def fromEntries (entries : List LogEntry) : RaftLog :=
  if entries.isEmpty then new else ⟨entries⟩

/-- All entries as a vector, for persistence. -/
def toEntries (log : RaftLog) : List LogEntry :=
  log.entries

/-! ## The body of a log that has its sentinel -/

/-- The real entries of a log, in order of their index. -/
def body (log : RaftLog) : List LogEntry :=
  log.entries.tail

/-- The log still starts with the sentinel entry. -/
def HasSentinel (log : RaftLog) : Prop :=
  log.entries = sentinel :: log.body

instance (log : RaftLog) : Decidable log.HasSentinel :=
  inferInstanceAs (Decidable (log.entries = sentinel :: log.body))

theorem hasSentinel_mk (body : List LogEntry) : HasSentinel ⟨sentinel :: body⟩ := rfl

@[simp] theorem body_mk (head : LogEntry) (body : List LogEntry) :
    RaftLog.body ⟨head :: body⟩ = body := rfl

/-- A log with its sentinel comes back from its entries. -/
theorem fromEntries_entries {log : RaftLog} (kept : log.HasSentinel) :
    fromEntries log.entries = log := by
  unfold fromEntries
  rw [if_neg (by rw [kept]; simp)]

theorem lastIndex_eq_length_body (log : RaftLog) : log.lastIndex = log.body.length := by
  simp [lastIndex, body]

/-- Index `index + 1` of the log is position `index` of its body. -/
theorem get_succ (log : RaftLog) (index : Nat) : log.get (index + 1) = log.body[index]? := by
  simp [get, body]

theorem termAt_succ (log : RaftLog) (index : Nat) :
    log.termAt (index + 1) = (log.body[index]?.map LogEntry.term).getD 0 := by
  simp [termAt, body]

/-- Out of bounds the term is 0, by the convention of the source. -/
theorem termAt_of_gt {log : RaftLog} {index : Nat} (beyond : log.lastIndex < index) :
    log.termAt index = 0 := by
  cases index with
  | zero => exact absurd beyond (Nat.not_lt_zero _)
  | succ index =>
      have outside : log.body.length ≤ index := by
        rw [lastIndex_eq_length_body] at beyond
        exact Nat.le_of_lt_succ beyond
      rw [termAt_succ, List.getElem?_eq_none outside]
      rfl

theorem lastTerm_eq_body {log : RaftLog} (kept : log.HasSentinel) :
    log.lastTerm = (log.body.getLast?.map LogEntry.term).getD 0 := by
  rw [lastTerm, kept]
  cases log.body with
  | nil => rfl
  | cons head tail => rfl

theorem appendEntries_eq_ok {log result : RaftLog} {entries : List LogEntry} :
    log.appendEntries entries = .ok result <->
      log.entries.length + entries.length ≤ vecCapacity ∧ result = ⟨log.entries ++ entries⟩ := by
  unfold appendEntries
  by_cases fits : log.entries.length + entries.length ≤ vecCapacity
  · rw [if_pos fits]
    simp only [fits, true_and, Except.ok.injEq, eq_comm]
  · rw [if_neg fits]
    simp only [fits, false_and, reduceCtorEq]

/-- Sending from a positive index sends the body from the position before it. -/
theorem entriesFrom_succ (log : RaftLog) (index : Nat) :
    log.entriesFrom (index + 1) = log.body.drop index := by
  unfold entriesFrom body
  split
  · next beyond => rw [← List.drop_one, List.drop_drop, List.drop_eq_nil_of_le (by omega)]
  · rw [← List.drop_one, List.drop_drop, Nat.add_comm]

end RaftLog
end Raft
end RaftStore
