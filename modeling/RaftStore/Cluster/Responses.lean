import RaftStore.Cluster.Commit
import RaftStore.Raft.Effects

namespace RaftStore
namespace Cluster

open Raft Systems

/-!
# What a response of a node does

The effects of the handlers, gathered for one step of the cluster that is not a
restart: how the acting node may become leader, what it applies, and that the
entries it logs and sends come from its log, from a delivered request or from a
client.
-/

/-- A follower applies what an accepted request says is committed. -/
structure FollowerApplies (node after : RaftNode) (event : Event) (actions : List Action)
    (request : AppendEntriesRequest) : Prop
    extends RaftNode.Applies node after actions
      (min request.leaderCommit after.state.log.lastIndex) where
  delivered : Exists fun sender => event = .deliver ⟨event.actor, .appendEntries sender request⟩
  accepts : Accepts node request
  above : node.state.commitIndex < request.leaderCommit

section Responses

variable {peers : List Nat} {config : Configuration} {event : Event} {after : RaftNode}
  {actions : List Action}

theorem respond_ascends (running : forall id, event ≠ .restart id)
    (response : config.respond peers event = .ok (after, actions)) :
    RaftNode.Ascends (config.nodes event.actor) after := by
  cases event with
  | tick id => exact RaftNode.tick_ascends response
  | propose id command =>
      rcases Outcome.map_eq_ok.mp response with ⟨⟨proposed, emitted⟩, ok, equal⟩
      cases equal
      exact RaftNode.propose_ascends ok
  | restart id => exact absurd rfl (running id)
  | deliver packet =>
      rcases packet with ⟨id, message⟩
      cases dispatch_handled response with
      | requestVote sender request =>
          exact (config.nodes id).handleRequestVote_ascends request
      | requestVoteResponse sender vote =>
          exact (config.nodes id).handleRequestVoteResponse_ascends sender vote
      | appendEntries sender request returned =>
          exact RaftNode.handleAppendEntries_ascends returned
      | appendEntriesResponse sender reply returned =>
          exact RaftNode.handleAppendEntriesResponse_ascends returned

/-- The acting node applies nothing, or what its leader says is committed, or what
it commits as leader. -/
theorem respond_applies (running : forall id, event ≠ .restart id)
    (response : config.respond peers event = .ok (after, actions)) :
    RaftNode.Silent (config.nodes event.actor) after actions ∨
    (Exists fun request =>
      FollowerApplies (config.nodes event.actor) after event actions request) ∨
    (Exists fun high => RaftNode.LeaderApplies (config.nodes event.actor) after actions high) := by
  cases event with
  | tick id => exact Or.inl (RaftNode.tick_silent response)
  | propose id command =>
      rcases Outcome.map_eq_ok.mp response with ⟨⟨proposed, emitted⟩, ok, equal⟩
      cases equal
      exact (RaftNode.propose_applies ok).imp_right Or.inr
  | restart id => exact absurd rfl (running id)
  | deliver packet =>
      rcases packet with ⟨id, message⟩
      cases dispatch_handled response with
      | requestVote sender request =>
          exact Or.inl ((config.nodes id).handleRequestVote_silent request)
      | requestVoteResponse sender vote =>
          exact Or.inl ((config.nodes id).handleRequestVoteResponse_silent sender vote)
      | appendEntries sender request returned =>
          rcases RaftNode.handleAppendEntries_applies returned with
            silent | ⟨current, passes, above, applies⟩
          · exact Or.inl silent
          · exact Or.inr (Or.inl ⟨request, applies, ⟨sender, rfl⟩, ⟨current, passes⟩, above⟩)
      | appendEntriesResponse sender reply returned =>
          exact (RaftNode.handleAppendEntriesResponse_applies returned).imp_right Or.inr

/-! ## Where the entries of a cluster come from -/

/-- Only such entries are in the logs of the members and in the packets. -/
structure Carries (peers : List Nat) (Good : LogEntry -> Prop) (config : Configuration) : Prop where
  logs : forall id, id ∈ peers -> RaftNode.LogsOnly Good (config.nodes id)
  packets : forall recipient sender request,
    Packet.mk recipient (.appendEntries sender request) ∈ config.network ->
    forall entry, entry ∈ request.entries -> Good entry

/-- The commands an event proposes are good. -/
def Proposes (Good : LogEntry -> Prop) : Event -> Prop
  | .propose _ command => forall term, Good ⟨term, command⟩
  | _ => True

/-- A dispatched message passes on good entries, if it carries no others. -/
theorem passes_dispatch {Good : LogEntry -> Prop} {node : RaftNode} {message : NetworkMessage}
    (good : RaftNode.LogsOnly Good node)
    (entries : forall sender request, message = .appendEntries sender request ->
      forall entry, entry ∈ request.entries -> Good entry)
    (dispatched : dispatch node message = .ok (after, actions)) :
    RaftNode.Passes Good after actions := by
  cases dispatch_handled dispatched with
  | requestVote sender request => exact RaftNode.handleRequestVote_passes good request
  | requestVoteResponse sender vote =>
      exact RaftNode.handleRequestVoteResponse_passes good sender vote
  | appendEntries sender request returned =>
      exact RaftNode.handleAppendEntries_passes good (entries sender request rfl) returned
  | appendEntriesResponse sender reply returned =>
      exact RaftNode.handleAppendEntriesResponse_passes good returned

theorem respond_passes {Good : LogEntry -> Prop} (carries : Carries peers Good config)
    (member : event.actor ∈ peers) (enabled : config.Enabled event)
    (proposes : Proposes Good event) (running : forall id, event ≠ .restart id)
    (response : config.respond peers event = .ok (after, actions)) :
    RaftNode.Passes Good after actions := by
  cases event with
  | tick id => exact RaftNode.tick_passes (carries.logs id member) response
  | propose id command =>
      rcases Outcome.map_eq_ok.mp response with ⟨⟨proposed, emitted⟩, ok, equal⟩
      cases equal
      exact RaftNode.propose_passes (carries.logs id member) proposes ok
  | restart id => exact absurd rfl (running id)
  | deliver packet =>
      rcases packet with ⟨id, message⟩
      refine passes_dispatch (carries.logs id member) ?_ response
      rintro sender request rfl
      exact carries.packets id sender request enabled

/-- What a step installs of good entries. -/
theorem Carries.install {Good : LogEntry -> Prop} (carries : Carries peers Good config) {id : Nat}
    (passes : RaftNode.Passes Good after actions) :
    Carries peers Good (config.install id after actions) where
  logs := Configuration.forall_install_nodes
    (fun other node => other ∈ peers -> RaftNode.LogsOnly Good node) (fun _ => passes.logs)
    fun other _ => carries.logs other
  packets recipient sender request listed := by
    rcases Configuration.request_of_mem_install listed rfl with before | emitted
    · exact carries.packets recipient sender request before
    · exact passes.sends recipient request emitted

/-- A restart reads the log back that was saved. -/
theorem Carries.step {Good : LogEntry -> Prop} (carries : Carries peers Good config)
    {ledger : Consensus.Ledger Nat LogEntry} (simulates : Simulates peers config ledger)
    (proposes : Proposes Good event) {next : Configuration}
    (stepped : config.step peers event = some (next, actions)) : Carries peers Good next := by
  rcases Configuration.step_eq_some.mp stepped with ⟨member, enabled, node, response, rfl⟩
  by_cases restarting : Exists fun id => event = .restart id
  · rcases restarting with ⟨id, rfl⟩
    cases response
    refine carries.install ⟨(carries.logs id member).congr ?_, RaftNode.requestless_nil.sendsOnly⟩
    have represents := simulates.nodes id member
    rw [represents.log_eq]
    exact represents.restarted.log_eq
  · have running : forall id, event ≠ .restart id := fun id equal => restarting ⟨id, equal⟩
    exact carries.install (respond_passes carries member enabled proposes running response)

end Responses
end Cluster
end RaftStore
