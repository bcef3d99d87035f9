import RaftStore.Cluster.Addressing
import RaftStore.Cluster.Leaders
import RaftStore.Cluster.Timers

namespace RaftStore
namespace Cluster

open Raft Systems RaftNode

/-!
# A leader that is heard stays leader

A leader steps down only for a later term, and a later term begins only when some
node has been silent for long enough to stand for election.  So a leader of the
highest term stays leader for as long as it does not restart and no other node is
silent for `electionTimeoutMin` ticks.  Whatever else is delayed, lost,
duplicated or delivered late does not matter.
-/

section Projection

variable {peers : List Nat} {history : List Transition} {config next : Configuration} {event : Event}
  {actions : List Action} {id : Nat}

/-! ## The run of one member -/

theorem momentsOf_cons_self :
    momentsOf event.actor (⟨config, event, actions, next⟩ :: history) =
      ⟨config.nodes event.actor, event.occurrence, actions, next.nodes event.actor⟩ ::
      momentsOf event.actor history :=
  List.filterMap_cons_some (if_pos rfl)

theorem momentsOf_cons_of_ne (other : event.actor ≠ id) :
    momentsOf id (⟨config, event, actions, next⟩ :: history) = momentsOf id history :=
  List.filterMap_cons_none (if_neg other)

/-- A restart in the cluster is a new process on the directory of the node. -/
theorem restarted_eq_reborn {node : RaftNode} (enabled : node.persister.isSome) :
    Configuration.restarted peers id node = reborn id peers node := by
  rcases Option.isSome_iff_exists.mp enabled with ⟨persister, present⟩
  unfold Configuration.restarted reborn
  rw [present]
  rfl

theorem withPersistence_persister {ε : Type} (id : Nat) (peers : List Nat)
    (persister : StatePersister) (loaded : Except ε (Option PersistentState)) :
    (withPersistence id peers persister loaded).persister = some persister := by
  unfold withPersistence
  split <;> rfl

/-- What happens at the acting node of a step, as a step of that node alone. -/
theorem occurrence_step (enabled : (config.nodes event.actor).persister.isSome) {after : RaftNode}
    (response : config.respond peers event = .ok (after, actions)) :
    event.occurrence.step event.actor peers (config.nodes event.actor) = some (after, actions) := by
  cases occurrence : event.occurrence with
  | restart =>
      cases event <;> cases occurrence
      cases response
      rw [Occurrence.step, ← restarted_eq_reborn enabled]
      rfl
  | call made => exact toOption_eq_some.mpr (respond_call occurrence response)

/-- **Projection to one node.**  What a node does in a run of the cluster is a run
of this node alone. -/
theorem Run.solitary (run : Run peers history config) (id : Nat) :
    Solitary id peers (momentsOf id history) (config.nodes id) ∧
      (config.nodes id).persister.isSome := by
  induction run with
  | start begins =>
      cases begins
      exact ⟨.start (Or.inr rfl), rfl⟩
  | @next history config next event actions _ stepped inductionHypothesis =>
      rcases inductionHypothesis with ⟨alone, enabled⟩
      rcases Configuration.step_eq_some.mp stepped with ⟨_, _, after, response, rfl⟩
      by_cases acting : event.actor = id
      · subst acting
        have moved := occurrence_step enabled response
        rw [momentsOf_cons_self, Configuration.install_nodes_self]
        refine ⟨alone.next moved, ?_⟩
        cases occurrence : event.occurrence with
        | restart =>
            rw [occurrence] at moved
            cases moved
            rw [← restarted_eq_reborn enabled, Configuration.restarted, withPersistence_persister]
            rfl
        | call made =>
            rw [occurrence] at moved
            have maintains := (Solitary.steady alone).1.maintains_call (toOption_eq_some.mp moved)
            rw [maintains.persistence]
            exact enabled
      · rw [momentsOf_cons_of_ne acting,
          Configuration.install_nodes_of_ne config after actions (fun same => acting same.symm)]
        exact ⟨alone, enabled⟩

end Projection

/-! ## Stability -/

/-- The leader does not restart, and a tick of any other node is not its
`electionTimeoutMin`-th one in silence. -/
def AttendedAt (leader : Nat) (older : List Transition) : Event -> Prop
  | .tick id => id ≠ leader -> silence (momentsOf id older) + 1 < electionTimeoutMin
  | .restart id => id ≠ leader
  | _ => True

instance (leader : Nat) (older : List Transition) (event : Event) :
    Decidable (AttendedAt leader older event) :=
  match event with
  | .tick _ => inferInstanceAs (Decidable (_ -> _))
  | .restart _ => inferInstanceAs (Decidable (_ ≠ _))
  | .propose _ _ => inferInstanceAs (Decidable True)
  | .deliver _ => inferInstanceAs (Decidable True)

/-- In the later steps, which come after the older ones, the leader is attended. -/
def Attended (leader : Nat) (older : List Transition) : List Transition -> Prop
  | [] => True
  | transition :: later =>
      AttendedAt leader (later ++ older) transition.event ∧ Attended leader older later

instance decidableAttended (leader : Nat) (older later : List Transition) :
    Decidable (Attended leader older later) :=
  match later with
  | [] => inferInstanceAs (Decidable True)
  | _ :: later =>
      have := decidableAttended leader older later
      inferInstanceAs (Decidable (_ ∧ Attended leader older later))

/-- The node leads the term, which is the highest one of all members and of all
messages. -/
structure Presides (peers : List Nat) (leader term : Nat) (config : Configuration) : Prop where
  role : (config.nodes leader).state.role = .leader
  term_eq : (config.nodes leader).state.currentTerm = term
  nodes : forall id, id ∈ peers -> (config.nodes id).state.currentTerm ≤ term
  packets : forall packet, packet ∈ config.network -> packet.message.term ≤ term

/-- Node 1 is elected in term 1 and heard by the two others. -/
def inauguration : List Event :=
  introduction ++ [.deliver ⟨2, .appendEntries 1 ⟨1, 1, 0, 0, [], 0⟩⟩]

/-- The others tick for a long time, hear from node 1 once more, and get an old
vote request.  Node 3 restarts. -/
def office : List Event :=
  ticks 2 28 ++ ticks 3 28 ++ ticks 1 3 ++
  [.deliver ⟨2, .appendEntries 1 ⟨1, 1, 0, 0, [], 0⟩⟩, .restart 3,
   .deliver ⟨3, .requestVote 1 ⟨1, 1, 0, 0⟩⟩] ++
  ticks 3 28 ++ ticks 2 28

section Stability

variable {peers : List Nat} {history later : List Transition} {config next final : Configuration}
  {event : Event} {actions : List Action} {leader term : Nat} {node after : RaftNode}

/-- A received message of no later term leaves the term where it is, or raises it
to that of the message. -/
theorem dispatch_term_le {message : NetworkMessage}
    (dispatched : dispatch node message = .ok (after, actions)) (own : node.state.currentTerm ≤ term)
    (received : message.term ≤ term) : after.state.currentTerm ≤ term := by
  have raised : forall heard, heard ≤ term -> (node.raiseTerm heard).state.currentTerm ≤ term := by
    intro heard bound
    unfold raiseTerm
    split
    · simpa using ⟨own, bound⟩
    · exact own
  cases dispatch_handled dispatched with
  | requestVote sender request =>
      rcases node.handleRequestVote_cases request with
        ⟨_, equal⟩ | ⟨_, _, _, equal⟩ | ⟨_, _, equal⟩
      · rw [equal]
        exact own
      · rw [equal]
        exact raised _ received
      · rw [equal]
        exact raised _ received
  | requestVoteResponse sender response =>
      have counted := node.countVote_state sender response
      rcases node.handleRequestVoteResponse_cases sender response with
        equal | ⟨_, _, equal⟩ | ⟨_, _, equal⟩
      · rw [equal]
        exact own
      · rw [equal]
        simpa using ⟨own, received⟩
      · rw [equal]
        split
        · change (node.countVote sender response).state.currentTerm ≤ term
          rw [counted]
          exact own
        · rw [counted]
          exact own
  | appendEntries sender request returned =>
      have accepted : (node.acceptLeader request).state.currentTerm ≤ term := by
        simpa using ⟨own, received⟩
      rcases handleAppendEntries_cases returned with
        ⟨_, rfl, _⟩ | ⟨_, _, rfl, _⟩ | ⟨_, _, inserted, ok, rfl, _⟩
      · exact own
      · exact accepted
      · rcases inserted.followCommit_shape request.leaderCommit with ⟨_, _, _, _, shape⟩
        rcases insertEntries_shape ok with ⟨_, _, rfl⟩
        rw [shape]
        exact accepted
  | appendEntriesResponse sender response returned =>
      rcases handleAppendEntriesResponse_cases returned with
        ⟨_, rfl, _⟩ | ⟨_, _, rfl, _⟩ | ⟨_, _, _, recorded, ok, equal⟩ | ⟨_, _, _, ok, _⟩
      · exact own
      · simpa using ⟨own, received⟩
      · rcases recordMatch_eq_ok ok with ⟨matchIndex, nextIndex, rfl, _⟩
        rcases maybeAdvanceCommitIndex_shape { node with state := { node.state with
          matchIndex := matchIndex, nextIndex := nextIndex } } with ⟨_, _, _, _, shape⟩
        rw [shape] at equal
        cases equal
        exact own
      · rcases recordRejection_eq_ok ok with ⟨_, rfl, _⟩
        exact own

/-- A leader stays what it is at a message of no later term, unless that is a
request of a leader of its own term. -/
theorem dispatch_keeps_leader {message : NetworkMessage}
    (dispatched : dispatch node message = .ok (after, actions)) (leads : node.state.role = .leader)
    (received : message.term ≤ node.state.currentTerm)
    (rivalless : forall sender request, message = .appendEntries sender request ->
      request.term < node.state.currentTerm) :
    after.state.role = .leader ∧ after.state.currentTerm = node.state.currentTerm := by
  cases dispatch_handled dispatched with
  | requestVote sender request =>
      have same : node.raiseTerm request.term = node := if_neg (Nat.not_lt_of_le received)
      rcases node.handleRequestVote_cases request with
        ⟨_, equal⟩ | ⟨_, _, _, equal⟩ | ⟨_, _, equal⟩
      · rw [equal]
        exact ⟨leads, rfl⟩
      · rw [equal, same]
        exact ⟨leads, rfl⟩
      · rw [equal, same]
        exact ⟨leads, rfl⟩
  | requestVoteResponse sender response =>
      rcases node.handleRequestVoteResponse_cases sender response with
        equal | ⟨stands, _⟩ | ⟨stands, _⟩
      · rw [equal]
        exact ⟨leads, rfl⟩
      · rw [leads] at stands
        cases stands
      · rw [leads] at stands
        cases stands
  | appendEntries sender request returned =>
      have stale := rivalless sender request rfl
      rcases handleAppendEntries_cases returned with ⟨_, rfl, _⟩ | ⟨current, _⟩ | ⟨current, _⟩
      · exact ⟨leads, rfl⟩
      · exact absurd stale (Nat.not_lt_of_le current)
      · exact absurd stale (Nat.not_lt_of_le current)
  | appendEntriesResponse sender response returned =>
      rcases handleAppendEntriesResponse_cases returned with
        ⟨follows, _⟩ | ⟨_, later, _⟩ | ⟨_, _, _, recorded, ok, equal⟩ | ⟨_, _, _, ok, _⟩
      · exact absurd leads follows
      · exact absurd later (Nat.not_lt_of_le received)
      · rcases recordMatch_eq_ok ok with ⟨matchIndex, nextIndex, rfl, _⟩
        rcases maybeAdvanceCommitIndex_shape { node with state := { node.state with
          matchIndex := matchIndex, nextIndex := nextIndex } } with ⟨_, _, _, _, shape⟩
        rw [shape] at equal
        cases equal
        exact ⟨leads, rfl⟩
      · rcases recordRejection_eq_ok ok with ⟨_, rfl, _⟩
        exact ⟨leads, rfl⟩

theorem tick_keeps_leader (leads : node.state.role = .leader)
    (ticked : node.tick = .ok (after, actions)) :
    after.state.role = .leader ∧ after.state.currentTerm = node.state.currentTerm := by
  rw [tick_of_leader leads] at ticked
  simp only [tickHeartbeat, Except.ok.injEq] at ticked
  split at ticked <;> cases ticked <;> exact ⟨leads, rfl⟩

theorem propose_keeps {command : LogCommand} {emitted : Option (List Action)}
    (proposed : node.propose command = .ok (after, emitted)) :
    after.state.role = node.state.role ∧ after.state.currentTerm = node.state.currentTerm := by
  rcases propose_cases proposed with ⟨_, rfl, _⟩ | ⟨_, _, rfl, _⟩
  · exact ⟨rfl, rfl⟩
  · rcases (node.withEntry command).maybeAdvanceCommitIndex_shape with ⟨_, _, _, _, shape⟩
    rw [shape]
    exact ⟨rfl, rfl⟩

/-- No request of a leader's own term is on its way to it. -/
theorem Presides.rivalless (presides : Presides peers leader term config) (distinct : peers.Nodup)
    (run : Run peers history config) (member : leader ∈ peers) {sender : Nat}
    {request : AppendEntriesRequest}
    (listed : Packet.mk leader (.appendEntries sender request) ∈ config.network) :
    request.term < term := by
  have addressed := packets_addressed distinct run listed
  refine Nat.lt_of_le_of_ne (presides.packets _ listed) fun same => ?_
  rcases Run.traces distinct run with ⟨ledger, traces⟩
  rcases traces.simulates.packets _ listed with ⟨_, r, found, own, _⟩
  rcases (traces.simulates.nodes leader member).leads presides.role with ⟨r', found', own'⟩
  rw [← (traces.simulates.nodes leader member).term_eq, presides.term_eq, ← same, found] at found'
  cases found'
  exact addressed.different (own'.symm.trans own)

/-- At a step at which it is attended the leader stays leader, and nobody gets
beyond its term. -/
theorem Presides.respond (presides : Presides peers leader term config) (distinct : peers.Nodup)
    (run : Run peers history config) (member : leader ∈ peers)
    (attended : AttendedAt leader history event) (acts : event.actor ∈ peers)
    (enabled : config.Enabled event) (response : config.respond peers event = .ok (after, actions)) :
    after.state.currentTerm ≤ term ∧ (event.actor = leader ->
      after.state.role = .leader ∧ after.state.currentTerm = term) := by
  have own := presides.nodes event.actor acts
  have led : event.actor = leader -> (config.nodes event.actor).state.role = .leader ∧
      (config.nodes event.actor).state.currentTerm = term := by
    intro same
    rw [same]
    exact ⟨presides.role, presides.term_eq⟩
  cases event with
  | restart id =>
      cases response
      refine ⟨?_, fun same => absurd same attended⟩
      rcases Run.solitary run id with ⟨alone, enabled⟩
      rcases alone.steady with ⟨steady, filed⟩
      rw [(Configuration.resumes_restarted peers id (filed enabled) steady.sentinel).term]
      exact own
  | tick id =>
      by_cases same : id = leader
      · have kept := tick_keeps_leader (led same).1 response
        rw [kept.2]
        exact ⟨own, fun _ => ⟨kept.1, (led same).2⟩⟩
      · refine ⟨?_, fun acting => absurd acting same⟩
        have timed := Solitary.timed (Run.solitary run id).1
        by_cases leads : (config.nodes id).state.role = .leader
        · rw [(tick_keeps_leader leads response).2]
          exact own
        · rcases timed.tick leads response with ⟨due, _, _⟩ | ⟨_, rfl⟩
          · -- the silence is too short for any time that can have been drawn
            have low := timed.drawn.low
            have short := attended same
            omega
          · exact own
  | propose id command =>
      rcases Outcome.map_eq_ok.mp response with ⟨⟨proposed, emitted⟩, ok, equal⟩
      cases equal
      have kept := propose_keeps ok
      rw [kept.1, kept.2]
      exact ⟨own, led⟩
  | deliver packet =>
      have received := presides.packets packet enabled
      refine ⟨dispatch_term_le response own received, fun same => ?_⟩
      rcases led same with ⟨leads, current⟩
      rw [← current]
      refine dispatch_keeps_leader response leads (by rw [current]; exact received) ?_
      rintro sender request message
      rcases packet with ⟨recipient, content⟩
      subst message
      cases same
      rw [current]
      exact presides.rivalless distinct run member enabled

theorem Presides.step (presides : Presides peers leader term config) (distinct : peers.Nodup)
    (run : Run peers history config) (member : leader ∈ peers)
    (attended : AttendedAt leader history event)
    (stepped : config.step peers event = some (next, actions)) :
    Presides peers leader term next := by
  have later : Run peers _ next := System.Run.next run stepped
  rcases Configuration.step_eq_some.mp stepped with ⟨acts, enabled, after, response, rfl⟩
  rcases presides.respond distinct run member attended acts enabled response with ⟨bound, leads⟩
  have nodes : forall id, id ∈ peers ->
      ((config.install event.actor after actions).nodes id).state.currentTerm ≤ term :=
    Configuration.forall_install_nodes
      (fun id node => id ∈ peers -> node.state.currentTerm ≤ term) (fun _ => bound)
      fun other _ => presides.nodes other
  have stays : ((config.install event.actor after actions).nodes leader).state.role = .leader ∧
      ((config.install event.actor after actions).nodes leader).state.currentTerm = term :=
    Configuration.forall_install_nodes
      (fun id node => id = leader -> node.state.role = .leader ∧ node.state.currentTerm = term)
      leads (fun _ _ same => same ▸ ⟨presides.role, presides.term_eq⟩) leader rfl
  refine ⟨stays.1, stays.2, nodes, fun packet listed => ?_⟩
  have addressed := packets_addressed distinct later listed
  exact Nat.le_trans addressed.dated (nodes _ addressed.sender)

/-- **A leader that is heard stays leader.**  Let a member lead the highest term of
all members.  In every continuation of the run in which it does not restart, and
in which no other node ticks for the `electionTimeoutMin`-th time in silence, it
still leads the same term, and nobody has got beyond it. -/
theorem leadership_stable (distinct : peers.Nodup) (run : Run peers history config)
    (member : leader ∈ peers) (leads : (config.nodes leader).state.role = .leader)
    (highest : forall id, id ∈ peers ->
      (config.nodes id).state.currentTerm ≤ (config.nodes leader).state.currentTerm)
    (extended : Run peers (later ++ history) final) (attended : Attended leader history later) :
    (final.nodes leader).state.role = .leader ∧
      (final.nodes leader).state.currentTerm = (config.nodes leader).state.currentTerm ∧
      forall id, id ∈ peers ->
        (final.nodes id).state.currentTerm ≤ (config.nodes leader).state.currentTerm := by
  have presides : Presides peers leader (config.nodes leader).state.currentTerm final := by
    induction later generalizing final with
    | nil =>
        have same : final = config := System.Run.state_unique
          (fun _ _ first second => Eq.trans first (Eq.symm second)) extended run
        subst same
        refine ⟨leads, rfl, highest, fun packet listed => ?_⟩
        have addressed := packets_addressed distinct run listed
        exact Nat.le_trans addressed.dated (highest _ addressed.sender)
    | cons transition later inductionHypothesis =>
        cases extended with
        | next earlier stepped =>
            exact (inductionHypothesis earlier attended.2).step distinct earlier member attended.1
              stepped
  exact ⟨presides.role, presides.term_eq, presides.nodes⟩

set_option maxRecDepth 100000 in
/-- The others tick 28 times in silence, twice each, and node 1 still leads. -/
theorem leadership_stable_office :
    Exists fun later => Exists fun older => Exists fun final =>
      Run [1, 2, 3] (later ++ older) final ∧ office.length = later.length ∧
      (final.nodes 1).state.role = .leader := by
  have checked : (execute [1, 2, 3] (inauguration ++ office)).any (fun result =>
      match result.1.drop 117 with
      | [] => false
      | first :: older => decide ((result.1.take 117 ++ [first]).length = office.length ∧
          (first.source.nodes 1).state.role = .leader ∧
          (forall id, id ∈ [1, 2, 3] -> (first.source.nodes id).state.currentTerm ≤
            (first.source.nodes 1).state.currentTerm) ∧
          Attended 1 older (result.1.take 117 ++ [first]))) = true := by decide +kernel
  rcases exists_run checked with ⟨history, final, run, holds⟩
  have parts := List.take_append_drop 117 history
  cases rest : history.drop 117 with
  | nil =>
      rw [rest] at holds
      cases holds
  | cons first older =>
      rw [rest] at holds parts
      rcases of_decide_eq_true holds with ⟨length, leads, highest, attended⟩
      have whole : (history.take 117 ++ [first]) ++ older = history := by
        rw [List.append_assoc, List.singleton_append, parts]
      have before : Run [1, 2, 3] older first.source := (System.Run.split (parts ▸ run)).1
      rw [← whole] at run
      exact ⟨_, older, final, run, length.symm,
        (leadership_stable (by decide) before (by decide) leads highest run attended).1⟩

end Stability
end Cluster
end RaftStore
