import RaftStore.Consensus.Order
import Mathlib.Logic.Function.Basic
import Mathlib.Logic.Relation

namespace RaftStore
namespace Consensus

/-!
# An abstract replicated log with elected leaders

The ledger records what a leader-based replicated log rests on, over arbitrary
types of nodes and entries.  Beside the current term and log of every node it
keeps the history that safety arguments refer to: the ballots cast, the log
with which a node stood for election, the reign of every elected leader, and
the prefixes of a leader's log that a node has held while it was in the
leader's term.

There are no messages here.  A step of the ledger may use any recorded fact,
however old, so that loss, delay, duplication and reordering of messages are
all covered by the choice of steps.

The results are that all logs are rooted in the logs of the leaders of their
terms, from which log matching follows at once, and that a prefix agreed on by
a majority in the leader's term is part of the log of every later leader.
-/

/-- The reign of one elected leader: who it is, who voted for it, the log it
started with, and that log with all entries it has added since. -/
structure Reign (ν ε : Type) where
  leader : ν
  electors : Finset ν
  initial : List ε
  log : List ε

/-- The state of the abstract protocol. -/
structure Ledger (ν ε : Type) where
  term : ν -> Nat
  ballot : ν -> Nat -> Option ν
  stand : ν -> Nat -> Option (List ε)
  log : ν -> List ε
  reign : Nat -> Option (Reign ν ε)
  agreed : ν -> Nat -> List ε -> Prop

section Tables

variable {ν α : Type} [DecidableEq ν]

/-- Enter a value for a node and a term. -/
def enter (table : ν -> Nat -> Option α) (node : ν) (term : Nat) (value : α) :
    ν -> Nat -> Option α :=
  Function.update table node (Function.update (table node) term (some value))

theorem enter_self (table : ν -> Nat -> Option α) (node : ν) (term : Nat) (value : α) :
    enter table node term value node term = some value := by
  simp [enter]

theorem enter_of_ne (table : ν -> Nat -> Option α) {node other : ν} {term otherTerm : Nat}
    (value : α) (different : ¬ (other = node ∧ otherTerm = term)) :
    enter table node term value other otherTerm = table other otherTerm := by
  unfold enter
  by_cases sameNode : other = node
  · subst other
    rw [Function.update_self, Function.update_of_ne (fun same => different ⟨rfl, same⟩)]
  · rw [Function.update_of_ne sameNode]

/-- An entry of the new table is the entered one or was there before. -/
theorem enter_cases {table : ν -> Nat -> Option α} {node other : ν} {term otherTerm : Nat}
    {value found : α} (present : enter table node term value other otherTerm = some found) :
    (other = node ∧ otherTerm = term ∧ found = value) ∨ table other otherTerm = some found := by
  by_cases same : other = node ∧ otherTerm = term
  · rw [same.1, same.2, enter_self] at present
    exact Or.inl ⟨same.1, same.2, (Option.some.inj present).symm⟩
  · rw [enter_of_ne table value same] at present
    exact Or.inr present

theorem le_update {term : ν -> Nat} {node : ν} {newTerm : Nat} (later : term node ≤ newTerm)
    (other : ν) : term other ≤ Function.update term node newTerm other := by
  by_cases same : other = node
  · subst other
    rw [Function.update_self]
    exact later
  · rw [Function.update_of_ne same]

end Tables

section Protocol

variable {ν ε : Type} (members : Finset ν) (termOf : ε -> Nat)

/-- Every position of the log is a position of the log of the leader of its
own term, with the same entries below it. -/
def Rooted (reign : Nat -> Option (Reign ν ε)) (log : List ε) : Prop :=
  forall init entry, init ++ [entry] <+: log ->
    Exists fun r => reign (termOf entry) = some r ∧ init ++ [entry] <+: r.log

/-- All leaders of the terms strictly between `lower` and `upper` started with
the given prefix. -/
def Carried (reign : Nat -> Option (Reign ν ε)) (lower upper : Nat) (part : List ε) : Prop :=
  forall term r, lower < term -> term < upper -> reign term = some r -> part <+: r.initial

/-- The ballot of `node` in `term` was cast before a leader was elected, or by
one of the electors. -/
def Counted (ledger : Ledger ν ε) (node : ν) (term : Nat) : Prop :=
  forall r, ledger.reign term = some r -> node ∈ r.electors

/-- The node holds a part of the log of the leader of its current term. -/
def Holds (ledger : Ledger ν ε) (node : ν) (part : List ε) : Prop :=
  part <+: ledger.log node ∧
    Exists fun r => ledger.reign (ledger.term node) = some r ∧ part <+: r.log

/-- Whatever a node holds of its leader's log is recorded. -/
def Recorded (ledger : Ledger ν ε) : Prop :=
  forall node part, Holds ledger node part -> ledger.agreed node (ledger.term node) part

/-- What holds of the reign of the leader elected for a term. -/
structure Lawful (ledger : Ledger ν ε) (term : Nat) (r : Reign ν ε) : Prop where
  elected : Majority members r.electors
  votes : forall node, node ∈ r.electors -> ledger.ballot node term = some r.leader
  stands : ledger.stand r.leader term = some r.initial
  begins : r.initial <+: r.log
  bound : forall entry, entry ∈ r.log -> termOf entry ≤ term
  ordered : Ordered termOf r.log
  rooted : Rooted termOf ledger.reign r.log
  current : ledger.term r.leader = term -> ledger.log r.leader = r.log

/-- The invariant of the protocol. -/
structure Sound (ledger : Ledger ν ε) : Prop where
  ballot_le : forall {node term candidate},
    ledger.ballot node term = some candidate -> term ≤ ledger.term node
  ballot_stands : forall {node term candidate}, ledger.ballot node term = some candidate ->
    Exists fun platform => ledger.stand candidate term = some platform
  stand_pos : forall {node term platform}, ledger.stand node term = some platform -> 0 < term
  stand_ballot : forall {node term platform},
    ledger.stand node term = some platform -> ledger.ballot node term = some node
  stand_old : forall {node term platform}, ledger.stand node term = some platform ->
    forall entry, entry ∈ platform -> termOf entry < term
  stand_rooted : forall {node term platform},
    ledger.stand node term = some platform -> Rooted termOf ledger.reign platform
  log_bound : forall node entry, entry ∈ ledger.log node -> termOf entry ≤ ledger.term node
  log_rooted : forall node, Rooted termOf ledger.reign (ledger.log node)
  lawful : forall {term r}, ledger.reign term = some r -> Lawful members termOf ledger term r
  agreed_le : forall {node term part}, ledger.agreed node term part -> term ≤ ledger.term node
  agreed_closed : forall {node term part shorter}, ledger.agreed node term part ->
    shorter <+: part -> ledger.agreed node term shorter
  agreed_issued : forall {node term part}, ledger.agreed node term part ->
    Exists fun r => ledger.reign term = some r ∧ part <+: r.log
  agreed_held : forall {node term part}, ledger.agreed node term part ->
    Carried ledger.reign term (ledger.term node + 1) part -> part <+: ledger.log node
  restricted : forall {node term part later candidate platform},
    ledger.agreed node term part -> EndsIn termOf part term -> term < later ->
    ledger.ballot node later = some candidate -> ledger.stand candidate later = some platform ->
    Counted ledger node later -> Carried ledger.reign term later part ->
    UpToDate termOf platform part

variable [DecidableEq ν] [DecidableEq ε]

/-- The steps of the protocol taken by one node. -/
inductive Step (actor : ν) (ledger : Ledger ν ε) : Ledger ν ε -> Prop
  /-- Learn of a later term. -/
  | advance (term : Nat) (later : ledger.term actor < term) :
      Step actor ledger { ledger with term := Function.update ledger.term actor term }
  /-- Stand for election in the next term, with the own vote. -/
  | campaign :
      Step actor ledger { ledger with
        term := Function.update ledger.term actor (ledger.term actor + 1)
        ballot := enter ledger.ballot actor (ledger.term actor + 1) actor
        stand := enter ledger.stand actor (ledger.term actor + 1) (ledger.log actor) }
  /-- Vote in the current term for a candidate that is up to date. -/
  | grant (candidate : ν) (platform : List ε)
      (free : forall other, ledger.ballot actor (ledger.term actor) = some other -> other = candidate)
      (stands : ledger.stand candidate (ledger.term actor) = some platform)
      (upToDate : UpToDate termOf platform (ledger.log actor)) :
      Step actor ledger { ledger with
        ballot := enter ledger.ballot actor (ledger.term actor) candidate }
  /-- Become leader with the votes of a majority. -/
  | elect (electors : Finset ν) (majority : Majority members electors)
      (votes : forall node, node ∈ electors -> ledger.ballot node (ledger.term actor) = some actor)
      (stands : ledger.stand actor (ledger.term actor) = some (ledger.log actor))
      (vacant : ledger.reign (ledger.term actor) = none) :
      Step actor ledger { ledger with
        reign := Function.update ledger.reign (ledger.term actor)
          (some ⟨actor, electors, ledger.log actor, ledger.log actor⟩) }
  /-- Add an entry to the own log as leader. -/
  | extend (r : Reign ν ε) (entry : ε) (leads : ledger.reign (ledger.term actor) = some r)
      (own : r.leader = actor) (current : termOf entry = ledger.term actor) :
      Step actor ledger { ledger with
        log := Function.update ledger.log actor (ledger.log actor ++ [entry])
        reign := Function.update ledger.reign (ledger.term actor)
          (some { r with log := r.log ++ [entry] }) }
  /-- Take over what the leader of the current term has issued. -/
  | accept (r : Reign ν ε) (issued : List ε) (leads : ledger.reign (ledger.term actor) = some r)
      (issues : issued <+: r.log) :
      Step actor ledger { ledger with
        log := Function.update ledger.log actor (overlay issued (ledger.log actor)) }
  /-- Record what every node holds of the log of the leader of its term. -/
  | agree :
      Step actor ledger { ledger with
        agreed := fun node term part => ledger.agreed node term part ∨
          (term = ledger.term node ∧ Holds ledger node part) }

omit [DecidableEq ν] [DecidableEq ε] in
theorem Holds.of_isPrefix {ledger : Ledger ν ε} {node : ν} {part shorter : List ε}
    (holds : Holds ledger node part) (begins : shorter <+: part) : Holds ledger node shorter := by
  rcases holds with ⟨held, r, found, issued⟩
  exact ⟨begins.trans held, r, found, begins.trans issued⟩

/-! ## Rooted logs -/

section Rooted

variable {termOf} {reign later : Nat -> Option (Reign ν ε)} {log part : List ε}

omit [DecidableEq ν] [DecidableEq ε]

theorem Rooted.of_isPrefix (rooted : Rooted termOf reign log) (begins : part <+: log) :
    Rooted termOf reign part :=
  fun init entry ends => rooted init entry (ends.trans begins)

theorem rooted_nil : Rooted termOf reign ([] : List ε) := by
  intro init entry ends
  have empty := List.prefix_nil.mp ends
  simp at empty

/-- Reigns that only begin or grow keep a log rooted. -/
theorem Rooted.mono (rooted : Rooted termOf reign log)
    (grows : forall {term r}, reign term = some r ->
      Exists fun r' => later term = some r' ∧ r.log <+: r'.log) :
    Rooted termOf later log := by
  intro init entry ends
  rcases rooted init entry ends with ⟨r, found, issued⟩
  rcases grows found with ⟨r', present, extended⟩
  exact ⟨r', present, issued.trans extended⟩

/-- A rooted log stays rooted when its last entry is rooted as well. -/
theorem Rooted.concat {entry : ε} (rooted : Rooted termOf reign log)
    (last : Exists fun r => reign (termOf entry) = some r ∧ log ++ [entry] <+: r.log) :
    Rooted termOf reign (log ++ [entry]) := by
  intro init other ends
  rcases List.prefix_concat_iff.mp ends with whole | earlier
  · have parts := List.append_inj' whole rfl
    rw [parts.1, List.singleton_inj.mp parts.2]
    exact last
  · exact rooted init other earlier

/-- **Log matching.**  Two rooted logs that hold entries of the same term at
the same position have the same entries up to it. -/
theorem Rooted.matching {left right init init' : List ε} {entry entry' : ε}
    (first : Rooted termOf reign left) (second : Rooted termOf reign right)
    (leftEnds : init ++ [entry] <+: left) (rightEnds : init' ++ [entry'] <+: right)
    (samePosition : init.length = init'.length) (sameTerm : termOf entry = termOf entry') :
    init ++ [entry] = init' ++ [entry'] := by
  rcases first init entry leftEnds with ⟨r, found, issued⟩
  rcases second init' entry' rightEnds with ⟨r', found', issued'⟩
  rw [← sameTerm, found] at found'
  cases found'
  have sameLength : (init ++ [entry]).length = (init' ++ [entry']).length := by
    simp [samePosition]
  exact (List.prefix_of_prefix_length_le issued issued' (Nat.le_of_eq sameLength)).eq_of_length
    sameLength

end Rooted

section Carried

variable {ε' : Type} {reign later : Nat -> Option (Reign ν ε')} {part : List ε'}

omit [DecidableEq ν]

theorem Carried.mono {lower upper upper' : Nat} (carried : Carried reign lower upper part)
    (smaller : upper' ≤ upper) : Carried reign lower upper' part :=
  fun term r above below found => carried term r above (Nat.lt_of_lt_of_le below smaller) found

/-- Reigns that began before keep the log they began with. -/
theorem Carried.restrict {lower upper : Nat} (carried : Carried later lower upper part)
    (grows : forall {term r}, reign term = some r ->
      Exists fun r' => later term = some r' ∧ r'.initial = r.initial) :
    Carried reign lower upper part := by
  intro term r above below found
  rcases grows found with ⟨r', present, same⟩
  rw [← same]
  exact carried term r' above below present

end Carried

end Protocol
end Consensus
end RaftStore
