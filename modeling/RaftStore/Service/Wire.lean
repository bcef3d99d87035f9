import RaftStore.Network.Replies
import RaftStore.Service.Steps
import RaftStore.Service.Transport

namespace RaftStore
namespace Service

open Raft Storage Cluster Collections Network Systems

/-!
# Servers on the wire

Here the servers exchange bytes.  A message to a peer goes out on a connection of
its own, from which the listener of the peer may read everything, a part or nothing,
once.  A client is one stream of bytes to read requests from and one to write
replies to; it may stop reading at any time.

The stream of a client is given when its connection is accepted, for all that the
client will ever send.  It is read in turns, so that nothing can be said from it
about what the client has sent so far.
-/

namespace Wire

/-! ## Hosts -/

/-- A line that a client sends, as the loop of the server gets it. -/
def lineRead : Except ReadError String -> Line
  | .ok text => .ok text
  | .error .broken => .error .failed
  | .error .notText => .error .invalidData

/-- The lines of a client's stream. -/
def clientLines (ending : Ending) (bytes : List UInt8) : List Line :=
  (readLines ending bytes).map lineRead

/-- The connection of a client: the lines that it sends in all, those that have not
been read, what has been written back, and whether writing fails by now. -/
structure Client where
  lines : List Line
  unread : List Line
  written : String
  broken : Bool

namespace Client

/-- A client that has just connected. -/
def accepted (lines : List Line) : Client := ⟨lines, lines, "", false⟩

/-- Write a response, if writing does not fail. -/
def write (client : Client) (response : Response) : Client :=
  if client.broken then client
  else { client with written := client.written ++ Response.serialize response }

/-- Reply to a request, if the response is there.  The loop ends where this cannot
be written. -/
def reply (client : Client) : Option Response -> Option Client
  | none => some client
  | some response => if client.broken then none else some (client.write response)

end Client

/-- A server process: the server, the messages that its peer listener has read from
one connection and not yet handled, and the client that is being served. -/
structure Host where
  server : Server
  inbox : List NetworkMessage
  client : Option Client

/-- What can happen next.  The listener of a peer reads so many bytes of a
connection, which then is closed or cannot be read any further. -/
inductive Event where
  | tick (id : Nat)
  | connect (id : Nat) (bytes : List UInt8) (ending : Ending)
  | turn (id : Nat)
  | poll (id : Nat) (late : Bool)
  | hangUp (id : Nat)
  | accept (id : Nat) (connection : Connection) (arrived : Nat) (ending : Ending)
  | dispatch (id : Nat)
  | restart (id : Nat)
  deriving DecidableEq

/-- The process an event happens in. -/
def Event.actor : Event -> Nat
  | .tick id => id
  | .connect id _ _ => id
  | .turn id => id
  | .poll id _ => id
  | .hangUp id => id
  | .accept id _ _ _ => id
  | .dispatch id => id
  | .restart id => id

/-- The result of a section under the lock, with what it has to do with a client: a
command that was asked, and an answer to a command. -/
structure Result where
  host : Host
  asked : Option Command
  answer : Option Response

namespace Host

section Respond

variable (toUppercase : String -> String) (codec : Codec NetworkMessage) (peers : List Nat)

/-- One turn of the loop of `handle_client`. -/
def turn (host : Host) (id : Nat) (client : Client) : Option Result :=
  match readFrame client.unread with
  | none => some ⟨{ host with client := none }, none, none⟩
  | some (.refused text, rest) =>
      let client := { client with unread := rest }
      some ⟨{ host with client := some (client.write (.error text)) }, none, none⟩
  | some (.request args, rest) =>
      let command := commandOf toUppercase args
      (host.server.respond peers (.client id command)).map fun (server, answer) =>
        let client := { client with unread := rest }
        ⟨{ host with server := server, client := client.reply answer }, some command, answer⟩

/-- What a process does at an event.  It serves one client at a time, does not read on
while the client waits, and takes the messages of one peer at a time. -/
def respond (host : Host) : Event -> Option Result
  | .tick id => (host.server.respond peers (.tick id)).map fun (server, _) =>
      ⟨{ host with server := server }, none, none⟩
  | .connect _ bytes ending =>
      match host.client with
      | some _ => none
      | none =>
          some ⟨{ host with client := some (.accepted (clientLines ending bytes)) }, none, none⟩
  | .turn id =>
      match host.server.session with
      | some _ => none
      | none => host.client.bind (host.turn toUppercase peers id)
  | .poll id late => (host.server.respond peers (.poll id late)).map fun (server, answer) =>
      ⟨{ host with server := server, client := host.client.bind (·.reply answer) }, none, answer⟩
  | .hangUp _ => host.client.map fun client =>
      ⟨{ host with client := some { client with broken := true } }, none, none⟩
  | .accept _ connection arrived ending =>
      match host.inbox with
      | _ :: _ => none
      | [] =>
          some ⟨{ host with inbox := PeerTransport.receive codec connection arrived ending },
            none, none⟩
  | .dispatch id =>
      match host.inbox with
      | [] => none
      | message :: rest => (host.server.respond peers (.deliver ⟨id, message⟩)).map
          fun (server, _) => ⟨{ host with server := server, inbox := rest }, none, none⟩
  | .restart id => (host.server.respond peers (.restart id)).map fun (server, _) =>
      ⟨⟨server, [], none⟩, none, none⟩

end Respond
end Host

/-! ## The cluster -/

/-- Where the processes run: the configurations they know, the environment of each,
and the node whose listener is reached under an address.  For every process the
address of another node leads to that node. -/
structure Deployment where
  allNodes : List NodeConfig
  environment : Nat -> String -> Option String
  listener : String -> Option Nat
  reaches : forall sender config, sender ∈ allNodes.map NodeConfig.id -> config ∈ allNodes ->
    config.id ≠ sender -> listener (config.address (environment sender)) = some config.id

/-- The ids of all nodes. -/
def Deployment.peers (deployment : Deployment) : List Nat := deployment.allNodes.map NodeConfig.id

/-- The transport of a process. -/
def Deployment.transport (deployment : Deployment) (id : Nat) : PeerTransport :=
  .new (deployment.environment id) id deployment.allNodes

/-- The state of all processes, and the connections that no listener has accepted. -/
structure Configuration where
  hosts : Nat -> Host
  connections : List Connection

/-- What can be seen of a step: the command that a client asked, the answer to a
command, and the messages that are put on the wire. -/
structure Output where
  asked : Option Command
  answer : Option Response
  sent : List NetworkMessage

/-- The connections that are left when an event has happened. -/
def Event.remaining (connections : List Connection) : Event -> List Connection
  | .accept _ connection _ _ => connections.erase connection
  | _ => connections

/-- A listener accepts a connection that was made to its address. -/
def Deployment.Enabled (deployment : Deployment) (connections : List Connection) : Event -> Prop
  | .accept id connection _ _ =>
      connection ∈ connections ∧ deployment.listener connection.address = some id
  | _ => True

instance (deployment : Deployment) (connections : List Connection) :
    (event : Event) -> Decidable (deployment.Enabled connections event)
  | .accept _ _ _ _ => inferInstanceAs (Decidable (_ ∧ _))
  | .tick _ => inferInstanceAs (Decidable True)
  | .connect _ _ _ => inferInstanceAs (Decidable True)
  | .turn _ => inferInstanceAs (Decidable True)
  | .poll _ _ => inferInstanceAs (Decidable True)
  | .hangUp _ => inferInstanceAs (Decidable True)
  | .dispatch _ => inferInstanceAs (Decidable True)
  | .restart _ => inferInstanceAs (Decidable True)

namespace Configuration

/-- All processes have just come up on empty directories. -/
def initial (deployment : Deployment) : Configuration where
  hosts id := ⟨(Service.Configuration.initial deployment.peers).servers id, [], none⟩
  connections := []

/-- Install the result of a section under the lock, and send its messages. -/
def install (codec : Codec NetworkMessage) (deployment : Deployment) (config : Configuration)
    (event : Event) (result : Result) : Configuration × Output :=
  let (node, messages) := result.host.server.node.takeOutboundMessages
  let transport := deployment.transport event.actor
  let host := { result.host with server := { result.host.server with node := node } }
  (⟨Function.update config.hosts event.actor host,
      event.remaining config.connections ++ transport.sendMessages codec messages⟩,
    ⟨result.asked, result.answer, (transport.addressed messages).map Prod.snd⟩)

/-- One step of the processes. -/
def step (toUppercase : String -> String) (codec : Codec NetworkMessage) (deployment : Deployment)
    (config : Configuration) (event : Event) : Option (Configuration × Output) :=
  if event.actor ∈ deployment.peers ∧ deployment.Enabled config.connections event then
    ((config.hosts event.actor).respond toUppercase codec deployment.peers event).map
      (config.install codec deployment event)
  else none

theorem step_eq_some {toUppercase : String -> String} {codec : Codec NetworkMessage}
    {deployment : Deployment} {config next : Configuration} {event : Event} {output : Output} :
    config.step toUppercase codec deployment event = some (next, output) <->
      event.actor ∈ deployment.peers ∧ deployment.Enabled config.connections event ∧
      Exists fun result =>
        (config.hosts event.actor).respond toUppercase codec deployment.peers event = some result ∧
        (next, output) = config.install codec deployment event result := by
  unfold step
  by_cases possible : event.actor ∈ deployment.peers ∧ deployment.Enabled config.connections event
  · rw [if_pos possible, Option.map_eq_some_iff]
    constructor
    · rintro ⟨result, responded, installed⟩
      exact ⟨possible.1, possible.2, result, responded, installed.symm⟩
    · rintro ⟨_, _, result, responded, installed⟩
      exact ⟨result, responded, installed.symm⟩
  · rw [if_neg possible]
    constructor
    · intro impossible
      cases impossible
    · rintro ⟨member, enabled, _⟩
      exact absurd ⟨member, enabled⟩ possible

end Configuration

/-- The processes of a deployment as a system. -/
def processes (toUppercase : String -> String) (codec : Codec NetworkMessage)
    (deployment : Deployment) : System Configuration Event Output where
  Starts config := config = .initial deployment
  step := Configuration.step toUppercase codec deployment

/-- One step of a run of the processes. -/
abbrev Transition := Systems.Transition Configuration Event Output

/-- The runs of the processes of a deployment. -/
abbrev Run (toUppercase : String -> String) (codec : Codec NetworkMessage)
    (deployment : Deployment) : List Transition -> Configuration -> Prop :=
  (processes toUppercase codec deployment).Run

/-- The messages that have been put on the wire. -/
def sent (history : List Transition) : List NetworkMessage :=
  history.flatMap fun transition => transition.output.sent

/-! ## What clients see -/

/-- What a client has to do with a step: the command it asks, or none when it waits,
and the answer, if there is one. -/
structure Exchange where
  id : Nat
  asked : Option Command
  answer : Option Response
  deriving DecidableEq, Repr

/-- What clients see of the steps of the processes. -/
def exchanges (history : List Transition) : List Exchange :=
  history.filterMap fun transition =>
    match transition.event with
    | .turn id =>
        transition.output.asked.map fun command => ⟨id, some command, transition.output.answer⟩
    | .poll id _ => some ⟨id, none, transition.output.answer⟩
    | _ => none

/-- What clients see of the steps of the servers. -/
def serverExchanges (history : List Service.Transition) : List Exchange :=
  history.filterMap fun transition =>
    match transition.event with
    | .client id command => some ⟨id, some command, transition.output⟩
    | .poll id _ => some ⟨id, none, transition.output⟩
    | _ => none

/-! ## The messages behind the bytes -/

section Projection

variable {toUppercase : String -> String} {codec : Codec NetworkMessage} {deployment : Deployment}

/-- The servers behind the processes: every connection that leads to a listener has
the bytes of a message to this listener. -/
structure Carried (codec : Codec NetworkMessage) (deployment : Deployment)
    (config : Configuration) (image : Service.Configuration) : Prop where
  servers : forall id, image.servers id = (config.hosts id).server
  drained : forall id, (config.hosts id).server.node.outboundMessages = []
  connections : forall connection id, connection ∈ config.connections ->
    deployment.listener connection.address = some id ->
    Exists fun message => Exists fun text => codec.Carries message text ∧
      connection.bytes = bytesOf (text ++ "\n") ∧ ⟨id, message⟩ ∈ image.network
  inbox : forall id message, message ∈ (config.hosts id).inbox -> ⟨id, message⟩ ∈ image.network

theorem carried_initial (codec : Codec NetworkMessage) (deployment : Deployment) :
    Carried codec deployment (.initial deployment) (.initial deployment.peers) where
  servers _ := rfl
  drained _ := rfl
  connections _ _ listed := (List.not_mem_nil listed).elim
  inbox _ _ listed := (List.not_mem_nil listed).elim

/-- The connections that a process makes carry what the server behind it sends. -/
theorem sendMessages_carried {sender id : Nat} (member : sender ∈ deployment.peers)
    {messages : List PeerMessage}
    (faithful : codec.Faithful (((deployment.transport sender).addressed messages).map Prod.snd))
    {connection : Connection}
    (made : connection ∈ (deployment.transport sender).sendMessages codec messages)
    (leads : deployment.listener connection.address = some id) :
    Exists fun message => Exists fun text => codec.Carries message text ∧
      connection.bytes = bytesOf (text ++ "\n") ∧
      ⟨id, message⟩ ∈ sendMessages deployment.peers sender messages := by
  rcases List.mem_filterMap.mp made with ⟨⟨address, message⟩, addressed, encoded⟩
  rcases faithful message (List.mem_map.mpr ⟨_, addressed, rfl⟩) with ⟨text, carries⟩
  simp only [carries.written, Option.some.injEq] at encoded
  subst encoded
  rcases List.mem_filterMap.mp addressed with ⟨queued, listed, found⟩
  refine ⟨message, text, carries, rfl, List.mem_filterMap.mpr ⟨queued, listed, ?_⟩⟩
  unfold Deployment.transport at found
  rw [PeerTransport.peerAddresses_new] at found
  split at found
  · cases found
  · next known =>
      split at known
      · cases known
      · next other =>
          rcases Option.map_eq_some_iff.mp known with ⟨config, chosen, same⟩
          have configured : config ∈ deployment.allNodes :=
            List.mem_reverse.mp (List.mem_of_find?_eq_some chosen)
          have recipient : config.id = queued.recipient := by
            simpa using List.find?_some chosen
          cases found
          have reached := deployment.reaches sender config member configured
            (recipient ▸ other)
          rw [same, leads, recipient] at reached
          cases reached
          rw [if_pos ⟨recipient ▸ List.mem_map.mpr ⟨config, configured, rfl⟩, other⟩]
          rfl

variable {config next : Configuration} {image : Service.Configuration} {event : Event}
  {output : Output} {result : Result}

/-- A host whose queued messages have been taken. -/
def Host.drained (host : Host) : Host :=
  { host with server := { host.server with node := host.server.node.takeOutboundMessages.1 } }

theorem Configuration.install_hosts_self (codec : Codec NetworkMessage) (deployment : Deployment)
    (config : Configuration) (event : Event) (result : Result) :
    (config.install codec deployment event result).1.hosts event.actor = result.host.drained :=
  Function.update_self _ _ _

theorem Configuration.install_hosts_of_ne (codec : Codec NetworkMessage) (deployment : Deployment)
    (config : Configuration) {event : Event} (result : Result) {id : Nat}
    (different : id ≠ event.actor) :
    (config.install codec deployment event result).1.hosts id = config.hosts id :=
  Function.update_of_ne different _ _

/-- The image of a step that ends with this result. -/
theorem Carried.install (carried : Carried codec deployment config image)
    (member : event.actor ∈ deployment.peers)
    (faithful : codec.Faithful (config.install codec deployment event result).2.sent)
    (kept : forall message, message ∈ result.host.inbox ->
      ⟨event.actor, message⟩ ∈ image.network) :
    Carried codec deployment (config.install codec deployment event result).1
      (image.install deployment.peers event.actor result.host.server) where
  servers id := by
    by_cases acting : id = event.actor
    · subst acting
      rw [Configuration.install_hosts_self, Service.Configuration.install_servers_self]
      rfl
    · rw [Configuration.install_hosts_of_ne _ _ _ _ acting,
        Service.Configuration.install_servers_of_ne _ _ _ acting]
      exact carried.servers id
  drained id := by
    by_cases acting : id = event.actor
    · subst acting
      rw [Configuration.install_hosts_self]
      rfl
    · rw [Configuration.install_hosts_of_ne _ _ _ _ acting]
      exact carried.drained id
  connections connection id listed leads := by
    rcases List.mem_append.mp listed with before | made
    · have pending : connection ∈ config.connections := by
        cases event with
        | accept _ accepted _ _ => exact List.mem_of_mem_erase before
        | _ => exact before
      rcases carried.connections connection id pending leads with
        ⟨message, text, carries, bytes, present⟩
      exact ⟨message, text, carries, bytes, List.mem_append_left _ present⟩
    · rcases sendMessages_carried member faithful made leads with
        ⟨message, text, carries, bytes, present⟩
      exact ⟨message, text, carries, bytes, List.mem_append_right _ present⟩
  inbox id message listed := by
    refine List.mem_append_left _ ?_
    by_cases acting : id = event.actor
    · subst acting
      rw [Configuration.install_hosts_self] at listed
      exact kept message listed
    · rw [Configuration.install_hosts_of_ne _ _ _ _ acting] at listed
      exact carried.inbox id message listed

/-- Where a server stays as it is, so does the image. -/
theorem Carried.install_idle (carried : Carried codec deployment config image)
    (same : result.host.server = (config.hosts event.actor).server) :
    image.install deployment.peers event.actor result.host.server = image := by
  have drained := carried.drained event.actor
  have own : ({ (config.hosts event.actor).server with
      node := (config.hosts event.actor).server.node.takeOutboundMessages.1 } : Server) =
        image.servers event.actor := by
    rw [carried.servers, ClusterNode.takeOutboundMessages, ← drained]
  unfold Service.Configuration.install
  simp only [same]
  rw [own, Function.update_eq_self, show
    (config.hosts event.actor).server.node.takeOutboundMessages.2 = [] from drained]
  exact congrArg (Service.Configuration.mk _) (List.append_nil _)

/-- What a step of the processes is for the servers behind them: nothing that a
client sees, or a step that the client sees alike. -/
inductive StepCarried (codec : Codec NetworkMessage) (deployment : Deployment)
    (image : Service.Configuration) (transition : Transition) : Prop
  | quiet (unseen : exchanges [transition] = [])
      (carried : Carried codec deployment transition.target image)
  | moves (event : Service.Event) (answer : Option Response) (after : Service.Configuration)
      (stepped : image.step deployment.peers event = some (after, answer))
      (seen : serverExchanges [⟨image, event, answer, after⟩] = exchanges [transition])
      (carried : Carried codec deployment transition.target after)

/-- A step at which the server responds to an event. -/
theorem Carried.moves (carried : Carried codec deployment config image)
    (made : Service.Event) {answer : Option Response} (same : made.actor = event.actor)
    (member : event.actor ∈ deployment.peers) (enabled : image.Enabled made)
    (responded : (config.hosts event.actor).server.respond deployment.peers made =
      some (result.host.server, answer))
    (faithful : codec.Faithful (config.install codec deployment event result).2.sent)
    (kept : forall message, message ∈ result.host.inbox -> ⟨event.actor, message⟩ ∈ image.network)
    (seen : forall next output after, (next, output) = config.install codec deployment event result ->
      serverExchanges [⟨image, made, answer, after⟩] = exchanges [⟨config, event, output, next⟩]) :
    StepCarried codec deployment image ⟨config, event,
      (config.install codec deployment event result).2,
      (config.install codec deployment event result).1⟩ := by
  refine .moves made answer _ (Service.Configuration.step_eq_some.mpr
    ⟨same ▸ member, enabled, result.host.server, ?_, rfl⟩) (seen _ _ _ rfl) ?_
  · rw [same, carried.servers]
    exact responded
  · rw [same]
    exact carried.install member faithful kept

/-- A step at which the server stays as it is. -/
theorem Carried.quiet (carried : Carried codec deployment config image)
    (member : event.actor ∈ deployment.peers)
    (same : result.host.server = (config.hosts event.actor).server)
    (faithful : codec.Faithful (config.install codec deployment event result).2.sent)
    (kept : forall message, message ∈ result.host.inbox -> ⟨event.actor, message⟩ ∈ image.network)
    (unseen : forall next output, (next, output) = config.install codec deployment event result ->
      exchanges [⟨config, event, output, next⟩] = []) :
    StepCarried codec deployment image ⟨config, event,
      (config.install codec deployment event result).2,
      (config.install codec deployment event result).1⟩ := by
  refine .quiet (unseen _ _ rfl) ?_
  have installed := carried.install member faithful kept
  rw [carried.install_idle same] at installed
  exact installed

/-- **The bytes carry the messages.**  Every step of the processes is a step of the
servers behind them, or none that a client sees. -/
theorem Carried.step (carried : Carried codec deployment config image)
    (stepped : config.step toUppercase codec deployment event = some (next, output))
    (faithful : codec.Faithful output.sent) :
    StepCarried codec deployment image ⟨config, event, output, next⟩ := by
  rcases Configuration.step_eq_some.mp stepped with ⟨member, enabled, result, responded, installed⟩
  obtain ⟨rfl, rfl⟩ := Prod.mk.inj installed
  have inbox := carried.inbox event.actor
  cases event with
  | tick id =>
      rcases Option.map_eq_some_iff.mp responded with ⟨⟨server, answer⟩, ticked, rfl⟩
      exact carried.moves (.tick id) rfl member True.intro ticked faithful inbox
        fun _ _ _ _ => rfl
  | connect id bytes ending =>
      simp only [Host.respond] at responded
      split at responded
      · cases responded
      · cases responded
        exact carried.quiet member rfl faithful inbox fun _ _ _ => rfl
  | turn id =>
      simp only [Host.respond] at responded
      split at responded
      · cases responded
      · rcases Option.bind_eq_some_iff.mp responded with ⟨client, _, turned⟩
        simp only [Host.turn] at turned
        split at turned
        · cases turned
          refine carried.quiet member rfl faithful inbox fun next output equal => ?_
          cases equal
          rfl
        · cases turned
          refine carried.quiet member rfl faithful inbox fun next output equal => ?_
          cases equal
          rfl
        · next args rest _ =>
            rcases Option.map_eq_some_iff.mp turned with ⟨⟨server, answer⟩, asked, rfl⟩
            refine carried.moves (.client id (commandOf toUppercase args)) rfl member
              True.intro asked faithful inbox fun next output after equal => ?_
            cases equal
            rfl
  | poll id late =>
      rcases Option.map_eq_some_iff.mp responded with ⟨⟨server, answer⟩, polled, rfl⟩
      refine carried.moves (.poll id late) rfl member True.intro polled faithful inbox
        fun next output after equal => ?_
      cases equal
      rfl
  | hangUp id =>
      rcases Option.map_eq_some_iff.mp responded with ⟨client, _, rfl⟩
      exact carried.quiet member rfl faithful inbox fun _ _ _ => rfl
  | accept id connection arrived ending =>
      simp only [Host.respond] at responded
      split at responded
      · cases responded
      · cases responded
        refine carried.quiet member rfl faithful ?_ fun _ _ _ => rfl
        intro message listed
        rcases carried.connections connection id enabled.1 enabled.2 with
          ⟨original, text, carries, bytes, present⟩
        have whole : connection = ⟨connection.address, bytesOf (text ++ "\n")⟩ := by
          rw [← bytes]
        change message ∈ PeerTransport.receive codec connection arrived ending at listed
        rw [whole] at listed
        rcases PeerTransport.receive_of_carries carries connection.address arrived ending with
          nothing | received
        · rw [nothing] at listed
          exact (List.not_mem_nil listed).elim
        · rw [received] at listed
          rw [List.mem_singleton.mp listed]
          exact present
  | dispatch id =>
      simp only [Host.respond] at responded
      split at responded
      · cases responded
      · next message rest waiting =>
          rcases Option.map_eq_some_iff.mp responded with ⟨⟨server, answer⟩, delivered, rfl⟩
          have present : forall other, other ∈ message :: rest -> ⟨id, other⟩ ∈ image.network :=
            fun other listed => inbox other (waiting ▸ listed)
          exact carried.moves (.deliver ⟨id, message⟩) rfl member
            (present message List.mem_cons_self) delivered faithful
            (fun other listed => present other (List.mem_cons_of_mem _ listed)) fun _ _ _ _ => rfl
  | restart id =>
      rcases Option.map_eq_some_iff.mp responded with ⟨⟨server, answer⟩, reopened, rfl⟩
      exact carried.moves (.restart id) rfl member True.intro reopened faithful
        (fun _ listed => (List.not_mem_nil listed).elim) fun _ _ _ _ => rfl

/-- The run of the servers behind a run of the processes. -/
structure Mirrors (codec : Codec NetworkMessage) (deployment : Deployment)
    (history : List Transition) (config : Configuration) (seen : List Service.Transition)
    (image : Service.Configuration) : Prop where
  run : Service.Run deployment.peers seen image
  carried : Carried codec deployment config image
  exchanges : serverExchanges seen = exchanges history

theorem Run.mirrors {history : List Transition}
    (run : Run toUppercase codec deployment history config)
    (faithful : codec.Faithful (sent history)) :
    Exists fun seen => Exists fun image => Mirrors codec deployment history config seen image := by
  induction run with
  | start begins =>
      cases begins
      exact ⟨[], _, .start rfl, carried_initial codec deployment, rfl⟩
  | @next history config after event output _ stepped inductionHypothesis =>
      have here : codec.Faithful output.sent :=
        fun message listed => faithful message (List.mem_append_left _ listed)
      have before : codec.Faithful (sent history) :=
        fun message listed => faithful message (List.mem_append_right _ listed)
      rcases inductionHypothesis before with ⟨seen, image, mirrors⟩
      have splits : exchanges (⟨config, event, output, after⟩ :: history) =
          exchanges [⟨config, event, output, after⟩] ++ exchanges history :=
        @List.filterMap_append _ _ [_] _ _
      rcases mirrors.carried.step stepped here with
        ⟨unseen, carried⟩ | ⟨made, answer, moved, taken, same, carried⟩
      · refine ⟨seen, image, mirrors.run, carried, ?_⟩
        rw [splits, unseen, mirrors.exchanges]
        rfl
      · refine ⟨_, moved, .next mirrors.run taken, carried, ?_⟩
        rw [splits, ← same, ← mirrors.exchanges]
        exact @List.filterMap_append _ _ [_] _ _

/-- **The wire is transparent.**  Whatever parts of the connections between the
processes arrive, and in whatever order, the servers are in a state that they also
reach by exchanging whole messages, and clients have asked the same and been
answered the same. -/
theorem wire_transparent {history : List Transition}
    (run : Run toUppercase codec deployment history config)
    (faithful : codec.Faithful (sent history)) :
    Exists fun seen => Exists fun image => Service.Run deployment.peers seen image ∧
      (forall id, image.servers id = (config.hosts id).server) ∧
      serverExchanges seen = exchanges history := by
  rcases Run.mirrors run faithful with ⟨seen, image, mirrors⟩
  exact ⟨seen, image, mirrors.run, mirrors.carried.servers, mirrors.exchanges⟩

end Projection

/-! ## Three nodes on one machine -/

/-- The nodes that `main` starts without an environment. -/
def localhost : Deployment where
  allNodes := [⟨1, 6381, 7001⟩, ⟨2, 6382, 7002⟩, ⟨3, 6383, 7003⟩]
  environment _ _ := none
  listener address := ([⟨1, 6381, 7001⟩, ⟨2, 6382, 7002⟩, ⟨3, 6383, 7003⟩].find?
    fun config : NodeConfig => config.address (fun _ => none) = address).map NodeConfig.id
  reaches := by
    intro sender config _ configured _
    have leads : forall config : NodeConfig,
        config ∈ [⟨1, 6381, 7001⟩, ⟨2, 6382, 7002⟩, ⟨3, 6383, 7003⟩] ->
        ([⟨1, 6381, 7001⟩, ⟨2, 6382, 7002⟩, ⟨3, 6383, 7003⟩].find? fun other : NodeConfig =>
          other.address (fun _ => none) = config.address fun _ => none).map NodeConfig.id =
            some config.id := by
      decide +kernel
    exact leads config configured

/-- The JSON of the messages of an election and of a write. -/
def json : List (NetworkMessage × String) :=
  [(.requestVote 1 ⟨1, 1, 0, 0⟩, "\x7b\"RequestVote\":\x7b\"from\":1,\"request\":\x7b\"term\":1," ++
      "\"candidate_id\":1,\"last_log_index\":0,\"last_log_term\":0\x7d\x7d\x7d"),
    (.requestVoteResponse 3 ⟨1, true⟩, "\x7b\"RequestVoteResponse\":\x7b\"from\":3,\"response\":" ++
      "\x7b\"term\":1,\"vote_granted\":true\x7d\x7d\x7d"),
    (.appendEntries 1 ⟨1, 1, 0, 0, [⟨1, .put "k" "v"⟩], 0⟩, "\x7b\"AppendEntries\":\x7b\"from\":1," ++
      "\"request\":\x7b\"term\":1,\"leader_id\":1,\"prev_log_index\":0,\"prev_log_term\":0," ++
      "\"entries\":[\x7b\"term\":1,\"command\":\x7b\"Put\":\x7b\"key\":\"k\",\"value\":\"v\"" ++
      "\x7d\x7d\x7d],\"leader_commit\":0\x7d\x7d\x7d"),
    (.appendEntries 1 ⟨1, 1, 0, 0, [], 0⟩, "\x7b\"AppendEntries\":\x7b\"from\":1,\"request\":\x7b" ++
      "\"term\":1,\"leader_id\":1,\"prev_log_index\":0,\"prev_log_term\":0,\"entries\":[]," ++
      "\"leader_commit\":0\x7d\x7d\x7d"),
    (.appendEntriesResponse 3 ⟨1, true, some 1⟩, "\x7b\"AppendEntriesResponse\":\x7b\"from\":3," ++
      "\"response\":\x7b\"term\":1,\"success\":true,\"match_index\":1\x7d\x7d\x7d")]

/-- The connection for a message of this table. -/
def post (address : String) (entry : Nat) : Connection :=
  ⟨address, bytesOf ((json.getD entry (.requestVote 1 ⟨1, 1, 0, 0⟩, "")).2 ++ "\n")⟩

/-- Node 1 asks for votes.  The request to node 2 is cut, the one to node 3 arrives
and is granted. -/
def wiredElection : List Event :=
  List.replicate 52 (.tick 1) ++
  [.accept 2 (post "127.0.0.1:7002" 0) 20 .broken, .accept 3 (post "127.0.0.1:7003" 0) 200 .closed,
    .dispatch 3, .accept 1 (post "127.0.0.1:7001" 1) 200 .broken, .dispatch 1]

/-- A client of node 1 sets a value and sends a line that is no request.  The line feed
of the answer of node 3 does not arrive. -/
def wiredWrite : List Event :=
  [.connect 1 (bytesOf "*3\r\n$3\r\nSET\r\n$1\r\nk\r\n$1\r\nv\r\nhello\r\n") .closed, .turn 1,
    .accept 3 (post "127.0.0.1:7003" 2) 300 .broken, .dispatch 3,
    .accept 1 (post "127.0.0.1:7001" 4) 300 .closed, .dispatch 1, .poll 1 false, .turn 1]

set_option maxRecDepth 100000 in
/-- The write is answered although one connection was cut. -/
theorem wire_transparent_localhost :
    Exists fun history => Exists fun config =>
      Run id (.ofTable json) localhost history config ∧
      Exists fun seen => Exists fun image => Service.Run localhost.peers seen image ∧
        (forall id, image.servers id = (config.hosts id).server) ∧
        serverExchanges seen = exchanges history ∧
        exchanges history =
          [⟨1, none, some (.simpleString "OK")⟩, ⟨1, some (.set "k" "v"), none⟩] := by
  have checked : ((processes id (.ofTable json) localhost).execute (wiredElection ++ wiredWrite)
      (.initial localhost)).any (fun result : List Transition × Configuration =>
        decide ((forall message, message ∈ sent result.1 -> message ∈ json.map Prod.fst) ∧
          exchanges result.1 =
            [⟨1, none, some (.simpleString "OK")⟩, ⟨1, some (.set "k" "v"), none⟩])) = true := by
    decide +kernel
  rcases System.exists_run rfl checked with ⟨history, config, run, holds⟩
  rcases of_decide_eq_true holds with ⟨listed, seen⟩
  rcases wire_transparent run (Codec.faithful_ofTable (by decide +kernel) listed) with
    ⟨behind, image, ran, servers, same⟩
  exact ⟨history, config, run, behind, image, ran, servers, same, seen⟩

end Wire
end Service
end RaftStore
