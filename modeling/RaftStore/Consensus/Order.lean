import Mathlib.Data.Finset.Card
import Mathlib.Data.List.Infix
import Mathlib.Data.List.TakeDrop

namespace RaftStore
namespace Consensus

/-!
# Majorities and logs ordered by term

General facts used by the abstract protocol: two majorities of one finite set
meet, and logs are compared by the term of their last entry and then by their
length.  Nothing here fixes what a node or a log entry is.  The entries of a
log only have a term, given by a function `termOf`.

A log position is described by the prefix that ends there.  This keeps index
arithmetic out of the protocol: two logs agree up to a position when they have
the same prefix, and a log holds an entry when a prefix ends with it.
-/

/-! ## Majorities -/

/-- A part of `members` with more than half of them. -/
def Majority {ν : Type} (members quorum : Finset ν) : Prop :=
  quorum ⊆ members ∧ members.card < 2 * quorum.card

/-- Two majorities of the same members have a member in common. -/
theorem Majority.meet {ν : Type} [DecidableEq ν] {members left right : Finset ν}
    (first : Majority members left) (second : Majority members right) :
    Exists fun node => node ∈ left ∧ node ∈ right := by
  have bound : (left ∪ right).card ≤ members.card :=
    Finset.card_le_card (Finset.union_subset first.1 second.1)
  have counted := Finset.card_union_add_card_inter left right
  have positive : 0 < (left ∩ right).card := by
    have firstHalf := first.2
    have secondHalf := second.2
    omega
  rcases Finset.card_pos.mp positive with ⟨node, member⟩
  exact ⟨node, Finset.mem_inter.mp member⟩

theorem Majority.nonempty {ν : Type} {members quorum : Finset ν}
    (majority : Majority members quorum) : Exists fun node => node ∈ quorum := by
  have positive : 0 < quorum.card := by
    have half := majority.2
    omega
  exact Finset.card_pos.mp positive

/-! ## Logs and their last term -/

section Terms

variable {ε : Type} (termOf : ε -> Nat)

/-- The term of the last entry of a log, 0 for the empty log. -/
def lastTerm (log : List ε) : Nat :=
  (log.getLast?.map termOf).getD 0

/-- Terms do not decrease along the log. -/
def Ordered (log : List ε) : Prop :=
  log.Pairwise (fun earlier later => termOf earlier ≤ termOf later)

/-- The first log is at least as up to date as the second. -/
def UpToDate (candidate voter : List ε) : Prop :=
  lastTerm termOf voter < lastTerm termOf candidate ∨
    lastTerm termOf voter = lastTerm termOf candidate ∧ voter.length ≤ candidate.length

/-- The log is not empty and its last entry has the given term. -/
def EndsIn (log : List ε) (term : Nat) : Prop :=
  Exists fun init => Exists fun entry => log = init ++ [entry] ∧ termOf entry = term

variable {termOf}

@[simp] theorem lastTerm_nil : lastTerm termOf [] = 0 := rfl

@[simp] theorem lastTerm_concat (init : List ε) (entry : ε) :
    lastTerm termOf (init ++ [entry]) = termOf entry := by
  simp [lastTerm]

theorem EndsIn.lastTerm_eq {log : List ε} {term : Nat} (ends : EndsIn termOf log term) :
    lastTerm termOf log = term := by
  rcases ends with ⟨init, entry, equal, same⟩
  rw [equal, lastTerm_concat, same]

variable (termOf) in
/-- A log is empty or ends in its last term. -/
theorem eq_nil_or_endsIn (log : List ε) : log = [] ∨ EndsIn termOf log (lastTerm termOf log) := by
  rcases List.eq_nil_or_concat log with empty | ⟨init, entry, equal⟩
  · exact Or.inl empty
  · right
    rw [List.concat_eq_append] at equal
    exact ⟨init, entry, equal, by rw [equal, lastTerm_concat]⟩

/-- A log with a positive last term ends in it. -/
theorem endsIn_lastTerm {log : List ε} (positive : 0 < lastTerm termOf log) :
    EndsIn termOf log (lastTerm termOf log) := by
  rcases eq_nil_or_endsIn termOf log with empty | ends
  · rw [empty, lastTerm_nil] at positive
    exact absurd positive (Nat.lt_irrefl 0)
  · exact ends

theorem UpToDate.trans {first second third : List ε}
    (upper : UpToDate termOf first second) (lower : UpToDate termOf second third) :
    UpToDate termOf first third := by
  unfold UpToDate at *
  omega

theorem Ordered.of_isPrefix {log part : List ε} (ordered : Ordered termOf log)
    (begins : part <+: log) : Ordered termOf part :=
  List.Pairwise.sublist begins.sublist ordered

theorem Ordered.concat {log : List ε} {entry : ε} (ordered : Ordered termOf log)
    (bound : forall earlier, earlier ∈ log -> termOf earlier ≤ termOf entry) :
    Ordered termOf (log ++ [entry]) := by
  refine List.pairwise_append.mpr ⟨ordered, List.pairwise_singleton _ _, ?_⟩
  intro earlier member later single
  rw [List.mem_singleton.mp single]
  exact bound earlier member

/-- Every term of an ordered log is at most its last one. -/
theorem Ordered.le_lastTerm {log : List ε} (ordered : Ordered termOf log) {entry : ε}
    (member : entry ∈ log) : termOf entry ≤ lastTerm termOf log := by
  rcases eq_nil_or_endsIn termOf log with empty | ⟨init, last, equal, same⟩
  · rw [empty] at member
    cases member
  · rw [← same]
    rw [equal] at member ordered
    rcases List.mem_append.mp member with earlier | final
    · exact (List.pairwise_append.mp ordered).2.2 entry earlier last List.mem_cons_self
    · rw [List.mem_singleton.mp final]

/-- An ordered log is at least as up to date as each of its prefixes. -/
theorem Ordered.upToDate {log part : List ε} (ordered : Ordered termOf log)
    (begins : part <+: log) : UpToDate termOf log part := by
  have bound : lastTerm termOf part ≤ lastTerm termOf log := by
    rcases eq_nil_or_endsIn termOf part with empty | ⟨init, last, equal, same⟩
    · rw [empty]
      exact Nat.zero_le _
    · rw [← same]
      apply ordered.le_lastTerm
      apply begins.subset
      rw [equal]
      exact List.mem_append_right init List.mem_cons_self
  rcases Nat.lt_or_eq_of_le bound with later | same
  · exact Or.inl later
  · exact Or.inr ⟨same, begins.length_le⟩

end Terms

/-! ## Taking over a prefix of the leader's log -/

section Overlay

variable {ε : Type} [DecidableEq ε]

/-- The log of a follower that accepts `issued`: it keeps its own log if that
already extends the issued one, and otherwise takes the issued one over. -/
def overlay (issued log : List ε) : List ε :=
  if issued <+: log then log else issued

theorem isPrefix_overlay (issued log : List ε) : issued <+: overlay issued log := by
  unfold overlay
  by_cases already : issued <+: log
  · rw [if_pos already]
    exact already
  · rw [if_neg already]

/-- A prefix that the follower shares with the leader survives the overlay by
anything the leader issues, shorter or longer. -/
theorem isPrefix_overlay_of_common {issued log whole common : List ε}
    (issues : issued <+: whole) (shared : common <+: whole) (held : common <+: log) :
    common <+: overlay issued log := by
  unfold overlay
  by_cases already : issued <+: log
  · rw [if_pos already]
    exact held
  · rw [if_neg already]
    rcases List.prefix_or_prefix_of_prefix shared issues with shorter | longer
    · exact shorter
    · exact absurd (longer.trans held) already

theorem mem_overlay {issued log : List ε} {entry : ε} (member : entry ∈ overlay issued log) :
    entry ∈ issued ∨ entry ∈ log := by
  unfold overlay at member
  split at member
  · exact Or.inr member
  · exact Or.inl member

end Overlay
end Consensus
end RaftStore
