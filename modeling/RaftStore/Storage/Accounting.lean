import RaftStore.Raft.Log
import RaftStore.Storage.Reopening

namespace RaftStore
namespace Storage

open Raft Systems

/-!
# What the memtable counts

The memtable adds up the bytes of all that is written to it until it is cleared.  It
takes nothing off when a key is written again.  So its size is what its entries take,
and what those took that have been replaced.
-/

/-- The bytes of a key and of its value, if it has one. -/
def pairBytes : String × Option String -> Nat
  | (key, some value) => key.utf8ByteSize + value.utf8ByteSize
  | (key, none) => key.utf8ByteSize

/-- The bytes of all of the pairs. -/
def bytesIn : List (String × Option String) -> Nat
  | [] => 0
  | pair :: rest => pairBytes pair + bytesIn rest

/-! ## Uses of a memtable -/

/-- A use of a memtable that changes it. -/
inductive Use where
  | change (made : Change)
  | clear
  deriving DecidableEq, Repr

/-- The entry that a change leaves. -/
def Change.pair : Change -> String × Option String
  | .put key value => (key, some value)
  | .delete key => (key, none)

/-- The memtable after a use, and the size it returns.  A sum beyond the range of the
count panics. -/
def Use.step (memtable : Memtable) (use : Use) : Option (Memtable × Nat) :=
  match use with
  | .change (.put key value) => Except.toOption do
      let addedSize <- checkedAdd key.utf8ByteSize value.utf8ByteSize
      let _ <- checkedAdd memtable.sizeBytes addedSize
      return memtable.put key value
  | .change (.delete key) => Except.toOption do
      let _ <- checkedAdd memtable.sizeBytes key.utf8ByteSize
      return memtable.delete key
  | .clear => some (memtable.clear, 0)

/-- The uses of a memtable from its creation on. -/
def usage : System Memtable Use Nat where
  Starts memtable := memtable = .new
  step := Use.step

/-- The runs of one memtable. -/
abbrev Usage : List (Systems.Transition Memtable Use Nat) -> Memtable -> Prop :=
  usage.Run

/-- What was written since the memtable was last cleared, the newest first. -/
def written : List (Systems.Transition Memtable Use Nat) -> List (String × Option String)
  | [] => []
  | transition :: older =>
      match transition.event with
      | .change made => made.pair :: written older
      | .clear => []

/-! ## Bytes and entries -/

theorem bytesIn_append (front back : List (String × Option String)) :
    bytesIn (front ++ back) = bytesIn front + bytesIn back := by
  induction front with
  | nil => exact (Nat.zero_add _).symm
  | cons pair rest inductionHypothesis =>
      rw [List.cons_append, bytesIn, bytesIn, inductionHypothesis, Nat.add_assoc]

/-- The order of the pairs does not matter. -/
theorem bytesIn_perm {left right : List (String × Option String)} (same : left.Perm right) :
    bytesIn left = bytesIn right := by
  induction same with
  | nil => rfl
  | cons pair _ inductionHypothesis => rw [bytesIn, bytesIn, inductionHypothesis]
  | swap first second rest => simp only [bytesIn, Nat.add_left_comm]
  | trans _ _ first second => exact first.trans second

section Entries

variable (entries : Std.ExtTreeMap String (Option String))

theorem nodup_entries : entries.toList.Nodup := by
  apply entries.distinct_keys_toList.imp
  rintro left right different rfl
  exact different Std.ReflCmp.compare_self

/-- An insertion puts its entry in the place of the one with its key. -/
theorem entries_insert_perm (key : String) (value : Option String) :
    (entries.insert key value).toList.Perm
      ((key, value) :: entries.toList.filter (fun pair => pair.1 ≠ key)) := by
  have fresh : (key, value) ∉ entries.toList.filter (fun pair => pair.1 ≠ key) := by
    intro listed
    have different := (List.mem_filter.mp listed).2
    exact of_decide_eq_true different rfl
  rw [List.perm_ext_iff_of_nodup (nodup_entries _)
    (List.nodup_cons.mpr ⟨fresh, (nodup_entries entries).filter _⟩)]
  rintro ⟨other, stored⟩
  rw [Std.ExtTreeMap.mem_toList_iff_getElem?_eq_some, Std.ExtTreeMap.getElem?_insert,
    List.mem_cons, List.mem_filter, Std.ExtTreeMap.mem_toList_iff_getElem?_eq_some]
  by_cases own : key = other
  · subst own
    simp [eq_comm]
  · simp [own, Ne.symm own]

end Entries

/-! ## The accounts of a memtable -/

/-- The last entry that was written for the key. -/
def lastWritten (pairs : List (String × Option String)) (key : String) :
    Option (String × Option String) :=
  pairs.find? (fun pair => pair.1 = key)

theorem key_of_lastWritten {pairs : List (String × Option String)} {key : String}
    {pair : String × Option String} (found : lastWritten pairs key = some pair) :
    pair.1 = key := by
  unfold lastWritten at found
  have owner := List.find?_some found
  exact of_decide_eq_true owner

/-- The size and the entries of a memtable come from what was written. -/
structure Accounts (history : List (Systems.Transition Memtable Use Nat))
    (memtable : Memtable) : Prop where
  size_eq : memtable.size = bytesIn (written history)
  latest : forall key, memtable.get key = (lastWritten (written history) key).map Prod.snd
  split : Exists fun replaced => (memtable.iter ++ replaced).Perm (written history)

section Accounts

variable {history : List (Systems.Transition Memtable Use Nat)}
  {memtable after : Memtable} {use : Use} {made : Change} {added : Nat}

/-- A change writes its entry and counts its bytes, unless there are too many. -/
theorem Use.step_change :
    Use.step memtable (.change made) = some (after, added) <->
      memtable.size + pairBytes made.pair < wordSize ∧ added = pairBytes made.pair ∧
        after = ⟨memtable.entries.insert made.pair.1 made.pair.2,
          memtable.size + pairBytes made.pair⟩ := by
  cases made with
  | put key value =>
      refine toOption_eq_some.trans (Outcome.bind_eq_ok.trans ?_)
      constructor
      · rintro ⟨addedSize, sum, rest⟩
        rcases checkedAdd_eq_ok.mp sum with ⟨_, rfl⟩
        rcases Outcome.bind_eq_ok.mp rest with ⟨sizeBytes, counts, returned⟩
        rcases checkedAdd_eq_ok.mp counts with ⟨fits, rfl⟩
        cases returned
        exact ⟨fits, rfl, rfl⟩
      · rintro ⟨fits, rfl, rfl⟩
        have small : key.utf8ByteSize + value.utf8ByteSize < wordSize :=
          Nat.lt_of_le_of_lt (Nat.le_add_left _ _) fits
        refine ⟨_, checkedAdd_eq_ok.mpr ⟨small, rfl⟩, Outcome.bind_eq_ok.mpr ?_⟩
        exact ⟨_, checkedAdd_eq_ok.mpr ⟨fits, rfl⟩, rfl⟩
  | delete key =>
      refine toOption_eq_some.trans (Outcome.bind_eq_ok.trans ?_)
      constructor
      · rintro ⟨sizeBytes, counts, returned⟩
        rcases checkedAdd_eq_ok.mp counts with ⟨fits, rfl⟩
        cases returned
        exact ⟨fits, rfl, rfl⟩
      · rintro ⟨fits, rfl, rfl⟩
        exact ⟨_, checkedAdd_eq_ok.mpr ⟨fits, rfl⟩, rfl⟩

theorem accounts_nil : Accounts [] .new where
  size_eq := rfl
  latest key := Std.ExtTreeMap.getElem?_empty
  split := by
    refine ⟨[], ?_⟩
    rw [List.append_nil, Memtable.iter,
      (Std.ExtTreeMap.toList_eq_nil_iff.mpr rfl : Memtable.new.entries.toList = [])]
    exact List.Perm.refl _

theorem Accounts.change (accounts : Accounts history memtable)
    (stepped : Use.step memtable (.change made) = some (after, added)) :
    Accounts (⟨memtable, .change made, added, after⟩ :: history) after := by
  rcases Use.step_change.mp stepped with ⟨_, rfl, rfl⟩
  constructor
  · change memtable.size + pairBytes made.pair = pairBytes made.pair + bytesIn (written history)
    rw [accounts.size_eq, Nat.add_comm]
  · intro key
    change (memtable.entries.insert made.pair.1 made.pair.2)[key]? =
      (lastWritten (made.pair :: written history) key).map Prod.snd
    rw [Std.ExtTreeMap.getElem?_insert, lastWritten]
    by_cases own : made.pair.1 = key
    · rw [List.find?_cons_of_pos (by simpa using own)]
      simp [own]
    · rw [List.find?_cons_of_neg (by simpa using own)]
      simp only [Std.compare_eq_iff_eq, own, if_false]
      exact accounts.latest key
  · rcases accounts.split with ⟨replaced, same⟩
    -- the entry with the same key, if there is one, joins the replaced ones
    let kept := memtable.iter.filter (fun pair => pair.1 ≠ made.pair.1)
    let gone := memtable.iter.filter (fun pair => !decide (pair.1 ≠ made.pair.1))
    have parted : (kept ++ gone).Perm memtable.iter := List.filter_append_perm _ _
    have inserted : ((memtable.entries.insert made.pair.1 made.pair.2).toList).Perm
        (made.pair :: kept) := entries_insert_perm _ made.pair.1 made.pair.2
    refine ⟨gone ++ replaced, ?_⟩
    have moved := (inserted.append_right (gone ++ replaced)).trans
      (List.Perm.of_eq (by rw [List.cons_append, ← List.append_assoc]))
    exact moved.trans (((parted.append_right replaced).trans same).cons made.pair)

theorem Accounts.step (accounts : Accounts history memtable)
    (stepped : Use.step memtable use = some (after, added)) :
    Accounts (⟨memtable, use, added, after⟩ :: history) after := by
  cases use with
  | change made => exact accounts.change stepped
  | clear =>
      cases stepped
      exact ⟨accounts_nil.size_eq, accounts_nil.latest, accounts_nil.split⟩

theorem Usage.accounts (run : Usage history memtable) : Accounts history memtable := by
  induction run with
  | start begins =>
      cases begins
      exact accounts_nil
  | next _ stepped inductionHypothesis => exact inductionHypothesis.step stepped

end Accounts

/-- What a memtable shows of its entries, and what it counts. -/
structure Accounted (pairs : List (String × Option String)) (memtable : Memtable) :
    Prop where
  ascending : memtable.iter.Pairwise (fun left right => compare left.1 right.1 = .lt)
  entries : forall key value, (key, value) ∈ memtable.iter <->
    lastWritten pairs key = some (key, value)
  len_eq : memtable.len = memtable.iter.length
  isEmpty_iff : memtable.isEmpty = true <-> pairs = []
  balance : Exists fun replaced => (memtable.iter ++ replaced).Perm pairs ∧
    memtable.size = bytesIn memtable.iter + bytesIn replaced
  accepts : forall made, (Exists fun result => Use.step memtable (.change made) = some result) <->
    bytesIn pairs + pairBytes made.pair < wordSize

/-- **The memtable counts what is written.**  After any uses, the entries come in the
order of the keys, each with what was last written for its key since the memtable was
cleared, and the size is what these entries and all replaced ones take.  A change is only
refused when the bytes written cannot be counted. -/
theorem memtable_accounted {history : List (Systems.Transition Memtable Use Nat)}
    {memtable : Memtable} (run : Usage history memtable) :
    Accounted (written history) memtable := by
  have accounts := Usage.accounts run
  have entries : forall key value, (key, value) ∈ memtable.iter <->
      lastWritten (written history) key = some (key, value) := by
    intro key value
    rw [Memtable.iter, Std.ExtTreeMap.mem_toList_iff_getElem?_eq_some]
    change memtable.get key = some value <-> _
    rw [accounts.latest key, Option.map_eq_some_iff]
    constructor
    · rintro ⟨pair, found, rfl⟩
      rw [found, ← key_of_lastWritten found]
    · exact fun found => ⟨_, found, rfl⟩
  rcases accounts.split with ⟨replaced, same⟩
  refine ⟨memtable.entries.ordered_keys_toList, entries,
    Std.ExtTreeMap.length_toList.symm, ?_, ⟨replaced, same, ?_⟩, ?_⟩
  · rw [Memtable.isEmpty, Std.ExtTreeMap.isEmpty_iff, ← Std.ExtTreeMap.toList_eq_nil_iff]
    change memtable.iter = [] <-> _
    constructor
    · intro none
      cases pairs : written history with
      | nil => rfl
      | cons pair older =>
          have newest : lastWritten (written history) pair.1 = some pair := by
            rw [pairs]
            exact List.find?_cons_of_pos (by simp)
          have listed := (entries pair.1 pair.2).mpr newest
          rw [none] at listed
          exact (List.not_mem_nil listed).elim
    · intro nothing
      rw [nothing] at same
      exact (List.append_eq_nil_iff.mp same.eq_nil).1
  · rw [accounts.size_eq, ← bytesIn_perm same, bytesIn_append]
  · intro made
    rw [← accounts.size_eq]
    constructor
    · rintro ⟨⟨after, added⟩, stepped⟩
      exact (Use.step_change.mp stepped).1
    · intro fits
      exact ⟨(_, _), Use.step_change.mpr ⟨fits, rfl, rfl⟩⟩

/-- A key is written twice, and both values are counted. -/
theorem memtable_accounted_rewritten :
    Exists fun history => Exists fun memtable => Usage history memtable ∧
      Accounted (written history) memtable ∧ memtable.len = 2 ∧ memtable.size = 13 := by
  have checked : (usage.execute
      [.change (.delete "x"), .clear, .change (.put "key" "old"), .change (.put "key" "new"),
        .change (.delete "a")] .new).any (fun result =>
      decide (result.2.len = 2 ∧ result.2.size = 13)) = true := by
    decide +kernel
  rcases System.exists_run rfl checked with ⟨history, memtable, run, holds⟩
  rcases of_decide_eq_true holds with ⟨two, bytes⟩
  exact ⟨history, memtable, run, memtable_accounted run, two, bytes⟩

/-! ## The memtable of the engine -/

section Engine

variable {history : List (Systems.Transition Memtable Use Nat)} {engine after : StorageEngine}
  {made : Change}

/-- What the engine acknowledges, its memtable takes in and counts. -/
theorem step_of_acknowledge (acknowledged : made.acknowledge engine = some after)
    (fits : engine.memtable.size + pairBytes made.pair < wordSize) :
    Use.step engine.memtable (.change made) = some (after.memtable, pairBytes made.pair) := by
  refine Use.step_change.mpr ⟨fits, rfl, ?_⟩
  rcases Change.acknowledge_eq_some acknowledged with ⟨_, _, recovered⟩
  rw [recovered]
  cases made <;> rfl

theorem Usage.follow (run : Usage history engine.memtable) {changes : List Change}
    (acknowledged : changes.foldlM Change.acknowledge engine = some after)
    (fits : bytesIn (written history) + bytesIn (changes.map Change.pair) < wordSize) :
    Exists fun later => Usage later after.memtable ∧
      written later = (changes.map Change.pair).reverse ++ written history := by
  induction changes generalizing history engine with
  | nil =>
      cases acknowledged
      exact ⟨history, run, rfl⟩
  | cons change rest inductionHypothesis =>
      rw [List.foldlM_cons] at acknowledged
      rcases Option.bind_eq_some_iff.mp acknowledged with ⟨between, first, others⟩
      rw [List.map_cons, bytesIn] at fits
      have room : engine.memtable.size + pairBytes change.pair < wordSize := by
        rw [(Usage.accounts run).size_eq]
        omega
      have longer := run.next (step_of_acknowledge first room)
      have left : bytesIn (change.pair :: written history) + bytesIn (rest.map Change.pair) <
          wordSize := by
        rw [bytesIn]
        omega
      rcases inductionHypothesis longer others left with ⟨later, reached, wrote⟩
      refine ⟨later, reached, ?_⟩
      rw [wrote, List.map_cons, List.reverse_cons, List.append_assoc]
      rfl

end Engine

/-- **The engine's memtable counts what the engine acknowledges.**  Where the bytes of all
changes can be counted, the memtable of a new engine counts them all, whatever it has
replaced. -/
theorem engine_accounted {changes : List Change} {after : StorageEngine}
    (acknowledged : changes.foldlM Change.acknowledge .empty = some after)
    (fits : bytesIn (changes.map Change.pair) < wordSize) :
    Accounted (changes.map Change.pair).reverse after.memtable ∧
      after.memtable.size = bytesIn (changes.map Change.pair) := by
  have started : Usage [] StorageEngine.empty.memtable := .start rfl
  have room : bytesIn (written []) + bytesIn (changes.map Change.pair) < wordSize := by
    rw [written, bytesIn, Nat.zero_add]
    exact fits
  rcases started.follow acknowledged room with ⟨later, run, wrote⟩
  rw [written, List.append_nil] at wrote
  have accounted := memtable_accounted run
  have size := (Usage.accounts run).size_eq
  rw [wrote] at accounted size
  exact ⟨accounted, size.trans (bytesIn_perm (List.reverse_perm _))⟩

/-- Both values of a key that is written twice are counted. -/
theorem engine_accounted_rewritten :
    Exists fun after : StorageEngine =>
      [Change.put "key" "old", .put "key" "new", .delete "a"].foldlM Change.acknowledge .empty =
        some after ∧
      after.memtable.len = after.memtable.iter.length ∧ after.memtable.size = 13 := by
  have acknowledged : ([Change.put "key" "old", .put "key" "new", .delete "a"].foldlM
      Change.acknowledge .empty).isSome = true := by
    decide +kernel
  rcases Option.isSome_iff_exists.mp acknowledged with ⟨after, reached⟩
  rcases engine_accounted reached (by decide) with ⟨accounted, size⟩
  exact ⟨after, reached, accounted.len_eq, size⟩

end Storage
end RaftStore
