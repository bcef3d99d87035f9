import RaftStore.Cluster.Refinement
import RaftStore.Raft.Repetition

namespace RaftStore
namespace Cluster

open Raft Consensus Systems RaftNode

/-!
# Duplicates

The network may deliver a packet more than once.  Every handler settles on the
message it has just handled, and a replication request on the network is such
that a receiver which accepts it inserts behind an index of its own log: the
request was cut from a leader's log, whose entries have positive terms.
-/

section Delivery

variable {peers : List Nat} {config once : Configuration} {packet : Packet}

/-- A replication request on the network inserts nothing beyond the end of a log
that accepts it. -/
theorem Represents.reaches {ledger : Ledger Nat LogEntry} {id : Nat} {node : RaftNode}
    (represents : Represents peers ledger id node) (sound : SoundFor peers ledger) {sender : Nat}
    {request : AppendEntriesRequest}
    (justified : Justified peers ledger ⟨id, .appendEntries sender request⟩)
    (passes : node.state.log.termAt request.prevLogIndex = request.prevLogTerm) :
    Reaches node.state.log request := by
  have kept : node.state.log.entries ≠ [] := by
    rw [represents.log_eq]
    exact List.cons_ne_nil _ _
  rcases justified with ⟨_, r, found, _, issued⟩
  rcases issued with ⟨base, cut, length, term⟩ | ⟨empty, _, _⟩
  · refine ⟨kept, Or.inr ?_⟩
    rw [RaftLog.lastIndex_eq_length_body, represents.log_eq]
    exact represents.inside_of_passes sound found cut length term passes
  · exact ⟨kept, Or.inl empty⟩

/-- A handled packet can be handled again, to no effect. -/
theorem Simulates.settles {ledger : Ledger Nat LogEntry} (simulates : Simulates peers config ledger)
    (sound : SoundFor peers ledger) (member : packet.recipient ∈ peers)
    (listed : packet ∈ config.network) {after : RaftNode} {actions : List Action}
    (dispatched : dispatch (config.nodes packet.recipient) packet.message = .ok (after, actions)) :
    Settles after (dispatch after packet.message) := by
  have represents := simulates.nodes packet.recipient member
  have justified := simulates.packets packet listed
  rcases packet with ⟨recipient, message⟩
  cases dispatch_handled dispatched with
  | requestVote sender request => exact handleRequestVote_settles _ request
  | requestVoteResponse sender response => exact handleRequestVoteResponse_settles _ sender response
  | appendEntries sender request returned =>
      exact handleAppendEntries_settles (represents.reaches sound justified) returned
  | appendEntriesResponse sender response returned =>
      exact handleAppendEntriesResponse_settles returned

/-- A replication request with one entry. -/
def replication : Packet := ⟨2, .appendEntries 1 ⟨1, 1, 0, 0, [⟨1, .put "k" "a"⟩], 0⟩⟩

/-- A schedule that puts it on the network. -/
def replicated : List Event :=
  ticks 1 52 ++
  [.deliver ⟨2, .requestVote 1 ⟨1, 1, 0, 0⟩⟩,
   .deliver ⟨1, .requestVoteResponse 2 ⟨1, true⟩⟩,
   .propose 1 (.put "k" "a")]

/-- **Duplicates are harmless.**  A packet that has been delivered can be delivered
once more right away.  That leaves its receiver as it is, up to timers, saves and
probes, and applies nothing. -/
theorem duplicate_delivery (distinct : peers.Nodup) {history : List Transition}
    (run : Run peers history config) {actions : List Action}
    (delivered : config.step peers (.deliver packet) = some (once, actions)) :
    Exists fun twice => Exists fun repeated =>
      once.step peers (.deliver packet) = some (twice, repeated) ∧
      SameView (once.nodes packet.recipient) (twice.nodes packet.recipient) ∧
      (forall other, other ≠ packet.recipient -> twice.nodes other = once.nodes other) ∧
      forall index command, Action.applyEntry index command ∉ repeated := by
  rcases run.traces distinct with ⟨ledger, traces⟩
  rcases Configuration.step_eq_some.mp delivered with ⟨member, listed, after, response, rfl⟩
  rcases traces.simulates.settles traces.sound member listed response with
    ⟨again, repeated, dispatched, view, nothing⟩
  have self : (config.install packet.recipient after actions).nodes packet.recipient = after :=
    config.install_nodes_self packet.recipient after actions
  refine ⟨_, repeated, Configuration.step_eq_some.mpr ⟨member, ?_, again, ?_, rfl⟩, ?_, ?_, nothing⟩
  · exact Configuration.mem_install_network.mpr (Or.inl listed)
  · change dispatch ((config.install packet.recipient after actions).nodes packet.recipient)
      packet.message = .ok (again, repeated)
    rw [self]
    exact dispatched
  · change SameView ((config.install packet.recipient after actions).nodes packet.recipient) _
    rw [self]
    simpa [Event.actor] using view
  · intro other different
    exact Configuration.install_nodes_of_ne _ again repeated different

set_option maxRecDepth 100000 in
/-- After node 1 has been elected and has proposed an entry, its replication request
may reach node 2 twice. -/
theorem duplicate_delivery_request :
    Exists fun (config : Configuration) => Exists fun once => Exists fun actions =>
      config.step [1, 2, 3] (.deliver replication) = some (once, actions) ∧
      Exists fun twice => Exists fun repeated =>
        once.step [1, 2, 3] (.deliver replication) = some (twice, repeated) ∧
        SameView (once.nodes 2) (twice.nodes 2) := by
  have checked : (execute [1, 2, 3] replicated).any (fun result =>
      (result.2.step [1, 2, 3] (.deliver replication)).isSome) = true := by decide +kernel
  rcases exists_run checked with ⟨history, config, run, holds⟩
  rcases Option.isSome_iff_exists.mp holds with ⟨⟨once, actions⟩, delivered⟩
  rcases duplicate_delivery (by decide) run delivered with ⟨twice, repeated, again, view, _⟩
  exact ⟨config, once, actions, delivered, twice, repeated, again, view⟩

end Delivery
end Cluster
end RaftStore
