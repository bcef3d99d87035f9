import RaftStore.Collections.Lines
import RaftStore.Network.Frames
import RaftStore.Service.Run

namespace RaftStore
namespace Service

open Raft Cluster Collections Network

/-!
# Messages on the wire

This file embeds `transport.rs`: who is reached under which address, how queued
messages are put on connections, and what the listener of a peer reads.  A message
is one line of JSON on a connection of its own.  The JSON itself, the resolution of
addresses and the environment are parameters.
-/

/-- Configuration for a single node in the cluster. -/
structure NodeConfig where
  id : Nat
  clientPort : Nat
  peerPort : Nat
  deriving DecidableEq, Repr

/-- The transport layer: the id of this node, and a map from node id to peer
address. -/
structure PeerTransport where
  nodeId : Nat
  peerAddresses : Nat -> Option String

/-- What is written to the socket of an address. -/
structure Connection where
  address : String
  bytes : List UInt8
  deriving DecidableEq, Repr

/-- The address of a node, with a host from the environment if there is one. -/
def NodeConfig.address (environment : String -> Option String) (config : NodeConfig) : String :=
  (environment ("PEER_HOST_" ++ toString config.id)).getD "127.0.0.1" ++ ":" ++
    toString config.peerPort

namespace PeerTransport

/-- Create a new transport for the given node. -/
def new (environment : String -> Option String) (nodeId : Nat) (allNodes : List NodeConfig) :
    PeerTransport where
  nodeId := nodeId
  peerAddresses := allNodes.foldl
    (fun addresses config =>
      if config.id ≠ nodeId then
        Function.update addresses config.id (some (config.address environment))
      else addresses)
    (fun _ => none)

/-- Create a transport from an existing address map. -/
def fromAddresses (nodeId : Nat) (peerAddresses : Nat -> Option String) : PeerTransport :=
  ⟨nodeId, peerAddresses⟩

/-- The messages whose recipient has an address, as they are encoded. -/
def addressed (transport : PeerTransport) (messages : List PeerMessage) :
    List (String × NetworkMessage) :=
  messages.filterMap fun message =>
    match transport.peerAddresses message.recipient with
    | none => none
    | some address => some (address, networkMessage transport.nodeId message.payload)

/-- Send outbound messages to peer nodes.  A message that cannot be encoded is
skipped. -/
def sendMessages (codec : Codec NetworkMessage) (transport : PeerTransport)
    (messages : List PeerMessage) : List Connection :=
  (transport.addressed messages).filterMap fun (address, message) =>
    match codec.encode message with
    | none => none
    | some json => some ⟨address, bytesOf (json ++ "\n")⟩

/-- What the listener reads of a connection of which so many bytes arrive. -/
def receive (codec : Codec NetworkMessage) (connection : Connection) (arrived : Nat)
    (ending : Ending) : List NetworkMessage :=
  codec.receive (readLines ending (connection.bytes.take arrived))

end PeerTransport

/-! ## Addresses -/

section Transport

variable {environment : String -> Option String} {nodeId id : Nat} {allNodes : List NodeConfig}
  {codec : Codec NetworkMessage}

/-- A node has no address for itself, and for another one that of the last
configuration with its id. -/
theorem PeerTransport.peerAddresses_new :
    (PeerTransport.new environment nodeId allNodes).peerAddresses id =
      if id = nodeId then none
      else (allNodes.reverse.find? fun config => config.id = id).map (·.address environment) := by
  unfold PeerTransport.new
  induction allNodes using List.reverseRecOn with
  | nil => simp
  | append_singleton front config inductionHypothesis =>
      rw [List.foldl_append, List.foldl_cons, List.foldl_nil, List.reverse_append,
        List.reverse_singleton, List.singleton_append]
      by_cases here : config.id = id
      · subst here
        rw [List.find?_cons_of_pos (by simp)]
        by_cases own : config.id = nodeId
        · rw [if_neg (not_not.mpr own), inductionHypothesis, if_pos own, if_pos own]
        · rw [if_pos own, if_neg own]
          exact Function.update_self _ _ _
      · rw [List.find?_cons_of_neg (by simpa using here), ← inductionHypothesis]
        split
        · exact Function.update_of_ne (Ne.symm here) _ _
        · rfl

/-- A message that is read from a connection is the message it was made for. -/
theorem PeerTransport.receive_of_carries {message : NetworkMessage} {text : String}
    (carries : codec.Carries message text) (address : String) (arrived : Nat) (ending : Ending) :
    PeerTransport.receive codec ⟨address, bytesOf (text ++ "\n")⟩ arrived ending = [] ∨
      PeerTransport.receive codec ⟨address, bytesOf (text ++ "\n")⟩ arrived ending = [message] := by
  have faithful : codec.Faithful [message] := by
    intro item listed
    rw [List.mem_singleton.mp listed]
    exact ⟨text, carries⟩
  have sent : bytesOf (text ++ "\n") = codec.stream [message] := by
    rw [Codec.stream_cons, carries.record_eq, bytesOf_append]
    exact (List.append_nil _).symm
  rcases Codec.receive_take faithful ending arrived with ⟨count, fits, received⟩
  rw [← sent] at received
  have within := fits.within
  rw [List.length_singleton] at within
  rcases Nat.le_one_iff_eq_zero_or_eq_one.mp within with rfl | rfl
  · exact Or.inl received
  · exact Or.inr received

end Transport
end Service
end RaftStore
