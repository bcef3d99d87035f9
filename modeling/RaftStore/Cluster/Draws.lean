import RaftStore.Cluster.Timers

namespace RaftStore
namespace Cluster

open Raft Systems Collections RaftNode

/-!
# What timeouts are drawn

The source randomizes the election timeouts so that not all nodes time out together.
The generator starts from the id of the node, and only the number of draws counts, not
what made the node draw.  So the timeouts of a node are a fixed sequence.  The sequence
never repeats a value at once, has every value again and again, and differs from the
sequence of every other node again and again.
-/

/-- The timeout at a draw of a node. -/
def timeoutAt (id count : Nat) : Nat := timeoutOf (generator.next^[count] id)

/-- Even and odd timeouts take turns. -/
theorem timeoutAt_succ_mod_two (id count : Nat) :
    timeoutAt id (count + 1) % 2 ≠ timeoutAt id count % 2 := by
  have turned := generator.next_mod_two (generator.next^[count] id)
  unfold timeoutAt timeoutOf
  rw [Function.iterate_succ_apply']
  have range : electionTimeoutMax - electionTimeoutMin = 30 := rfl
  have least : electionTimeoutMin = 30 := rfl
  rw [range, least]
  omega

/-- The timeouts for the two halves of the cycle are never the same. -/
theorem timeoutOf_apart {seed : Nat} (below : seed < generator.size) :
    timeoutOf ((seed + generator.half) % generator.size) ≠ timeoutOf seed := by
  have not : ¬ electionTimeoutMax - electionTimeoutMin ∣ generator.half := by decide
  intro same
  exact generator.mod_opposite_ne not below (Nat.add_right_cancel same)

section Runs

variable {id : Nat} {peers : List Nat} {history : List Moment} {node : RaftNode}

theorem Solitary.duration_eq (run : Solitary id peers history node) :
    node.electionTimeoutDuration = timeoutAt id (draws history) := by
  have timed := Solitary.timed run
  rw [timed.drawn, timed.seed]
  rfl

/-- The timeouts that follow on each other in a lifetime are even and odd in turn. -/
def TakesTurns (history : List Moment) : Prop :=
  forall newer moment older, history = newer ++ moment :: older ->
    draws (moment :: older) = draws older + 1 ->
    moment.target.electionTimeoutDuration % 2 ≠ moment.source.electionTimeoutDuration % 2

/-- **Timeouts are drawn by count.**  In every run of one node, with any messages,
proposals and restarts, the timeout is that of the number of draws since the start, and
no two draws in a row of one lifetime have the same one. -/
theorem timeouts_drawn (run : Solitary id peers history node) :
    node.electionTimeoutDuration = timeoutAt id (draws history) ∧ TakesTurns history := by
  refine ⟨Solitary.duration_eq run, ?_⟩
  rintro newer ⟨source, occurrence, actions, target⟩ older rfl drew
  rcases run.split with ⟨earlier, stepped⟩
  have before := Solitary.duration_eq earlier
  have behind := Solitary.duration_eq (earlier.next stepped)
  change target.electionTimeoutDuration % 2 ≠ source.electionTimeoutDuration % 2
  rw [behind, before, drew]
  exact timeoutAt_succ_mod_two id _

/-- Node 1 stands for election after 52 ticks, hears from a leader, and stands again after
50 ticks. -/
theorem timeouts_drawn_heard :
    Exists fun history => Exists fun node => Solitary 1 [1, 2, 3] history node ∧
      draws history = 4 ∧ node.state.currentTerm = 2 ∧
      node.electionTimeoutDuration = timeoutAt 1 (draws history) ∧ TakesTurns history := by
  have checked : ((solitude 1 [1, 2, 3]).execute
      (List.replicate 52 (.call .tick) ++
        .call (.receive (.appendEntries 2 ⟨1, 2, 0, 0, [], 0⟩)) :: List.replicate 50 (.call .tick))
      (RaftNode.withPersistence 1 [1, 2, 3] .new (.ok none : Except Unit _))).any (fun result =>
        decide (draws result.1 = 4 ∧ result.2.state.currentTerm = 2)) = true := by
    decide +kernel
  rcases System.exists_run (Or.inr rfl) checked with ⟨history, node, run, holds⟩
  rcases of_decide_eq_true holds with ⟨drew, term⟩
  exact ⟨history, node, run, drew, term, timeouts_drawn run⟩

/-! ## Drawing on -/

/-- The leader of the current term sends an empty request. -/
def Heartbeat (node : RaftNode) : Occurrence -> Prop
  | .call (.receive (.appendEntries _ request)) =>
      request.term = node.state.currentTerm ∧ request.entries = []
  | _ => False

/-- With nothing but heartbeats the node can come to have drawn so many times. -/
def CanDraw (id : Nat) (peers : List Nat) (history : List Moment) (count : Nat) : Prop :=
  Exists fun later => Exists fun final => Solitary id peers (later ++ history) final ∧
    Meets Heartbeat later ∧ draws (later ++ history) = count

/-- A heartbeat can always be taken in. -/
theorem Solitary.can_hear (run : Solitary id peers history node) :
    Exists fun occurrence => Exists fun actions => Exists fun after => Heartbeat node occurrence ∧
      Solitary id peers (⟨node, occurrence, actions, after⟩ :: history) after ∧
      draws (⟨node, occurrence, actions, after⟩ :: history) = draws history + 1 := by
  let request : AppendEntriesRequest := ⟨node.state.currentTerm, 0, 0, 0, [], 0⟩
  have safe : (Call.receive (.appendEntries 0 request)).Safe node :=
    fun _ _ nonempty => absurd rfl nonempty
  rcases ((Solitary.steady run).1.returns_iff _).mpr safe with ⟨⟨after, actions⟩, ran⟩
  have stepped : Occurrence.step id peers node (.call (.receive (.appendEntries 0 request))) =
      some (after, actions) := toOption_eq_some.mpr ran
  exact ⟨.call (.receive (.appendEntries 0 request)), actions, after, ⟨rfl, rfl⟩,
    run.next stepped, if_pos (Nat.le_refl _)⟩

/-- Any number of further draws can come about. -/
theorem Solitary.can_draw (run : Solitary id peers history node) {count : Nat}
    (more : draws history ≤ count) : CanDraw id peers history count := by
  obtain ⟨further, rfl⟩ := Nat.exists_eq_add_of_le more
  clear more
  induction further with
  | zero => exact ⟨[], node, run, fun _ listed => (List.not_mem_nil listed).elim, rfl⟩
  | succ further inductionHypothesis =>
      rcases inductionHypothesis with ⟨later, final, longer, meets, drew⟩
      rcases Solitary.can_hear longer with ⟨occurrence, actions, after, beat, longest, once⟩
      rw [drew] at once
      refine ⟨_ :: later, after, longest, ?_, once⟩
      intro moment listed
      rcases List.mem_cons.mp listed with rfl | before
      · exact beat
      · exact meets moment before

/-- **Every timeout comes again.**  Whatever has happened to a node, with nothing but
heartbeats it can come to have any timeout of the range. -/
theorem timeouts_recur (run : Solitary id peers history node) {timeout : Nat}
    (low : electionTimeoutMin ≤ timeout) (high : timeout < electionTimeoutMax) :
    Exists fun later => Exists fun final => Solitary id peers (later ++ history) final ∧
      Meets Heartbeat later ∧ final.electionTimeoutDuration = timeout := by
  have small : electionTimeoutMax ≤ generator.size := by decide
  have target : timeout - electionTimeoutMin < generator.size :=
    Nat.lt_of_le_of_lt (Nat.sub_le _ _) (Nat.lt_of_lt_of_le high small)
  rcases generator.exists_reading_eq timeoutOf (generator.next_lt id) target (draws history) with
    ⟨count, late, read⟩
  rcases Solitary.can_draw run (Nat.le_succ_of_le late) with ⟨later, final, longer, meets, drew⟩
  refine ⟨later, final, longer, meets, ?_⟩
  rw [Solitary.duration_eq longer, drew, timeoutAt, Function.iterate_succ_apply, read, timeoutOf,
    Nat.mod_eq_of_lt (Nat.sub_lt_sub_right low high), Nat.sub_add_cancel low]

/-- A new node can come to wait for 59 ticks. -/
theorem timeouts_recur_new :
    Exists fun later => Exists fun final => Solitary 1 [1, 2, 3] (later ++ []) final ∧
      Meets Heartbeat later ∧ final.electionTimeoutDuration = 59 :=
  timeouts_recur (.start (Or.inl rfl)) (by decide) (by decide)

/-- At this draw the timeouts of the two nodes differ, whatever has happened to the
nodes before. -/
def DifferAt (left right count : Nat) : Prop :=
  forall leftPeers rightPeers leftHistory rightHistory leftNode rightNode,
    Solitary left leftPeers leftHistory leftNode ->
    Solitary right rightPeers rightHistory rightNode ->
    draws leftHistory = count -> draws rightHistory = count ->
    leftNode.electionTimeoutDuration ≠ rightNode.electionTimeoutDuration

/-- **Ties are broken.**  Whatever has happened to two nodes with different ids, both can
come to a number of draws, by heartbeats alone, at which their timeouts differ. -/
theorem ties_break {left right : Nat} (leftWord : left < wordSize) (rightWord : right < wordSize)
    (different : left ≠ right) {leftPeers rightPeers : List Nat}
    {leftHistory rightHistory : List Moment} {leftNode rightNode : RaftNode}
    (first : Solitary left leftPeers leftHistory leftNode)
    (second : Solitary right rightPeers rightHistory rightNode) :
    Exists fun count => DifferAt left right count ∧
      CanDraw left leftPeers leftHistory count ∧ CanDraw right rightPeers rightHistory count := by
  rcases generator.exists_reading_ne timeoutOf (fun _ below => timeoutOf_apart below) leftWord
    rightWord different (max (draws leftHistory) (draws rightHistory)) with ⟨count, late, differ⟩
  refine ⟨count, ?_, Solitary.can_draw first (Nat.le_trans (Nat.le_max_left _ _) late),
    Solitary.can_draw second (Nat.le_trans (Nat.le_max_right _ _) late)⟩
  intro _ _ _ _ _ _ run run' drew drew'
  rw [Solitary.duration_eq run, Solitary.duration_eq run', drew, drew']
  exact differ

/-- The first and the third node of a new cluster. -/
theorem ties_break_new :
    Exists fun count => DifferAt 1 3 count ∧ CanDraw 1 [1, 2, 3] [] count ∧
      CanDraw 3 [1, 2, 3] [] count :=
  ties_break (by decide) (by decide) (by decide) (.start (Or.inl rfl)) (.start (Or.inl rfl))

end Runs
end Cluster
end RaftStore
