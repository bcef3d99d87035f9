import RaftStore.Service.Wire

namespace RaftStore
namespace Service

open Raft Storage Cluster Collections Network Systems

/-!
# The connection of a client

The loop of `handle_client` reads a frame, replies, and reads on.  A frame that is
not a request is refused at once; a write may be answered much later, and until then
nothing more is read.  So the replies stand on the wire in the order of the frames,
whatever happens in the cluster meanwhile.
-/

namespace Wire

/-! ## What a client has asked and been answered -/

/-- The commands that the present client of a process has asked, the oldest first. -/
def asked (id : Nat) : List Transition -> List Command
  | [] => []
  | transition :: older =>
      if transition.event.actor ≠ id then asked id older
      else
        match transition.event with
        | .connect _ _ _ => []
        | _ => asked id older ++ transition.output.asked.toList

/-- The answers to commands that the present client of a process was given. -/
def answered (id : Nat) : List Transition -> List Response
  | [] => []
  | transition :: older =>
      if transition.event.actor ≠ id then answered id older
      else
        match transition.event with
        | .connect _ _ _ => []
        | _ => answered id older ++ transition.output.answer.toList

/-- The replies to frames, of which the requests get these answers. -/
def replies : List Frame -> List Response -> List Response
  | [], _ => []
  | .refused text :: frames, answers => .error text :: replies frames answers
  | .request _ :: _, [] => []
  | .request _ :: frames, answer :: answers => answer :: replies frames answers

section Replies

variable {frames : List Frame} {answers : List Response}

theorem collected_append (front back : List Frame) :
    collected (front ++ back) = collected front ++ collected back :=
  List.filterMap_append

/-- A refusal follows the replies to the frames before. -/
theorem replies_refused (settled : answers.length = (collected frames).length) (text : String) :
    replies (frames ++ [.refused text]) answers = replies frames answers ++ [.error text] := by
  fun_induction replies frames answers with
  | case1 answers =>
      rw [List.length_eq_zero_iff.mp settled]
      rfl
  | case2 answers first frames inductionHypothesis =>
      rw [List.cons_append, replies, inductionHypothesis settled, List.cons_append]
  | case3 => cases settled
  | case4 args frames answer answers inductionHypothesis =>
      rw [List.cons_append, replies, inductionHypothesis (Nat.succ.inj settled), List.cons_append]

/-- The answer to a last request follows the replies to the frames before. -/
theorem replies_request (settled : answers.length = (collected frames).length)
    (args : List String) (answer : Response) :
    replies (frames ++ [.request args]) (answers ++ [answer]) = replies frames answers ++ [answer] := by
  fun_induction replies frames answers with
  | case1 answers =>
      rw [List.length_eq_zero_iff.mp settled]
      rfl
  | case2 answers first frames inductionHypothesis =>
      rw [List.cons_append, replies, inductionHypothesis settled, List.cons_append]
  | case3 => cases settled
  | case4 args frames answer answers inductionHypothesis =>
      rw [List.cons_append, List.cons_append, replies,
        inductionHypothesis (Nat.succ.inj settled), List.cons_append]

/-- With all requests answered there is a reply to every frame. -/
theorem length_replies (settled : answers.length = (collected frames).length) :
    (replies frames answers).length = frames.length := by
  fun_induction replies frames answers with
  | case1 => rfl
  | case2 answers first frames inductionHypothesis =>
      rw [List.length_cons, List.length_cons, inductionHypothesis settled]
  | case3 => cases settled
  | case4 args frames answer answers inductionHypothesis =>
      rw [List.length_cons, List.length_cons, inductionHypothesis (Nat.succ.inj settled)]

end Replies

/-- The bytes of replies. -/
def replyBytes (responses : List Response) : List UInt8 :=
  responses.flatMap fun response => bytesOf (Response.serialize response)

/-- A client whose frames so far have all been replied to, up to one request that it
waits for.  If writing fails by now, the replies up to some time were written. -/
structure Dialogue (toUppercase : String -> String) (commands : List Command)
    (answers : List Response) (client : Client) (frames : List Frame)
    (pending : Option (List String)) : Prop where
  read : readFrames client.lines =
    frames ++ pending.toList.map Frame.request ++ readFrames client.unread
  asked : commands = (collected frames ++ pending.toList).map (commandOf toUppercase)
  settled : answers.length = (collected frames).length
  written : Exists fun count => bytesOf client.written =
    replyBytes ((replies frames answers).take count) ∧
      (client.broken = false -> (replies frames answers).length ≤ count)
  single : forall text, Except.ok text ∈ client.unread -> '\n' ∉ text.toList
  plain : forall response, response ∈ replies frames answers -> Response.OneLine response

section Dialogue

variable {toUppercase : String -> String} {commands : List Command} {answers : List Response}
  {client : Client} {frames : List Frame} {pending : Option (List String)}

theorem feed_notMem_clientLines {ending : Ending} {bytes : List UInt8} {text : String}
    (listed : Except.ok text ∈ clientLines ending bytes) : '\n' ∉ text.toList := by
  rcases List.mem_map.mp listed with ⟨line, among, equal⟩
  rcases line with error | line
  · cases error <;> cases equal
  · cases equal
    exact feed_notMem_readLines among

theorem feed_ofList (characters : List Char) :
    feed (String.ofList characters) =
      (lines characters).map fun line => (.ok (String.ofList line) : Line) := by
  rw [feed, String.toList_ofList]

/-- From the bytes of a text the loop gets the lines of the text. -/
theorem clientLines_bytesOf (characters : List Char) :
    clientLines .closed (bytesOf (String.ofList characters)) = feed (String.ofList characters) := by
  -- the text behind the first line feed is shorter
  induction size : characters.length using Nat.strong_induction_on generalizing characters with
  | _ size' inductionHypothesis =>
      rw [feed_ofList]
      by_cases inside : '\n' ∈ characters
      · rcases List.eq_append_cons_of_mem inside with ⟨front, rest, rfl, single⟩
        have shorter : rest.length < size' := by
          rw [← size, List.length_append, List.length_cons]
          omega
        have bytes : bytesOf (String.ofList (front ++ '\n' :: rest)) =
            bytesOf (String.ofList front) ++ 10 :: bytesOf (String.ofList rest) := by
          rw [String.ofList_append, bytesOf_append, ← List.singleton_append, String.ofList_append,
            bytesOf_append, show bytesOf (String.ofList ['\n']) = [10] by decide]
          rfl
        have line : 10 ∉ bytesOf (String.ofList front) :=
          feed_notMem_bytesOf (by rwa [String.toList_ofList])
        rw [clientLines, bytes, readLines_append line, stripReturn_bytesOf, lineText_bytesOf,
          List.map_cons, lines_append_feed, splitOn_of_notMem single]
        exact congrArg (List.cons _)
          ((inductionHypothesis _ shorter rest rfl).trans (feed_ofList rest))
      · have line : 10 ∉ bytesOf (String.ofList characters) :=
          feed_notMem_bytesOf (by rwa [String.toList_ofList])
        rw [clientLines, readLines_of_notMem line, lines, splitOn_of_notMem inside]
        by_cases empty : characters = []
        · subst empty
          rfl
        · have visible : bytesOf (String.ofList characters) ≠ [] := by
            intro nothing
            have decoded := textOf_bytesOf (String.ofList characters)
            rw [nothing, show textOf [] = some (String.ofList []) by decide] at decoded
            exact empty (String.ofList_injective (Option.some.inj decoded).symm)
          rw [lastLine, if_neg visible, lineText_bytesOf, linesOf, if_neg empty]
          rfl

theorem dialogue_accepted (toUppercase : String -> String) (ending : Ending) (bytes : List UInt8) :
    Dialogue toUppercase [] [] (.accepted (clientLines ending bytes)) [] none where
  read := rfl
  asked := rfl
  settled := rfl
  written := ⟨0, rfl, fun _ => Nat.le_refl _⟩
  single _ listed := feed_notMem_clientLines listed
  plain _ listed := (List.not_mem_nil listed).elim

theorem replyBytes_append (front back : List Response) :
    replyBytes (front ++ back) = replyBytes front ++ replyBytes back :=
  List.flatMap_append

/-- Another reply, if writing does not fail. -/
theorem written_write {before : List Response} (response : Response)
    (written : Exists fun count => bytesOf client.written = replyBytes (before.take count) ∧
      (client.broken = false -> before.length ≤ count)) :
    Exists fun count => bytesOf (client.write response).written =
      replyBytes ((before ++ [response]).take count) ∧
        ((client.write response).broken = false -> (before ++ [response]).length ≤ count) := by
  rcases written with ⟨count, bytes, all⟩
  unfold Client.write
  cases broken : client.broken with
  | true =>
      refine ⟨min count before.length, ?_, fun impossible => ?_⟩
      · rw [if_pos rfl, bytes, List.take_append_of_le_length (Nat.min_le_right _ _),
          ← List.take_eq_take_min]
      · rw [if_pos rfl, broken] at impossible
        cases impossible
  | false =>
      have whole := List.take_of_length_le (all broken)
      refine ⟨(before ++ [response]).length, ?_, fun _ => Nat.le_refl _⟩
      rw [if_neg Bool.false_ne_true, List.take_length, replyBytes_append]
      simp only
      rw [bytesOf_append, bytes, whole]
      exact congrArg (replyBytes before ++ ·) (List.flatMap_singleton _ _).symm

theorem Client.write_lines (client : Client) (response : Response) :
    (client.write response).lines = client.lines ∧ (client.write response).unread = client.unread := by
  unfold Client.write
  split <;> exact ⟨rfl, rfl⟩

/-- A frame that is not a request is refused at once. -/
theorem Dialogue.refuse (dialogue : Dialogue toUppercase commands answers client frames none)
    {text : String} {rest : List Line}
    (turned : readFrame client.unread = some (.refused text, rest)) :
    Dialogue toUppercase commands answers
      (({ client with unread := rest } : Client).write (.error text))
      (frames ++ [.refused text]) none where
  read := by
    have lines := Client.write_lines { client with unread := rest } (.error text)
    rw [lines.1, lines.2, dialogue.read, readFrames_of_readFrame turned]
    simp
  asked := by
    rw [dialogue.asked, collected_append]
    simp [collected]
  settled := by
    rw [dialogue.settled, collected_append]
    simp [collected]
  written := by
    rw [replies_refused dialogue.settled]
    have before : Exists fun count =>
        bytesOf ({ client with unread := rest } : Client).written =
          replyBytes ((replies frames answers).take count) ∧
            (client.broken = false -> (replies frames answers).length ≤ count) := dialogue.written
    exact written_write (.error text) before
  single := by
    rw [(Client.write_lines _ _).2]
    rcases readFrame_spec turned with ⟨first, behind, split, left, _⟩
    intro line listed
    refine dialogue.single line ?_
    rw [split]
    exact List.mem_cons_of_mem _ (left.subset listed)
  plain := by
    rw [replies_refused dialogue.settled]
    intro response listed
    rcases List.mem_append.mp listed with before | last
    · exact dialogue.plain response before
    · rw [List.mem_singleton.mp last]
      exact refused_oneLine turned

/-- A request is read, and the client waits for its answer. -/
theorem Dialogue.request (dialogue : Dialogue toUppercase commands answers client frames none)
    {args : List String} {rest : List Line}
    (turned : readFrame client.unread = some (.request args, rest)) :
    Dialogue toUppercase (commands ++ [commandOf toUppercase args]) answers
      { client with unread := rest } frames (some args) where
  read := by
    rw [dialogue.read, readFrames_of_readFrame turned]
    simp
  asked := by
    rw [dialogue.asked]
    simp
  settled := dialogue.settled
  written := dialogue.written
  single := by
    rcases readFrame_spec turned with ⟨first, behind, split, left, _⟩
    intro line listed
    refine dialogue.single line ?_
    rw [split]
    exact List.mem_cons_of_mem _ (left.subset listed)
  plain := dialogue.plain

/-- The request that the client waits for is answered. -/
theorem Dialogue.answer {args : List String}
    (dialogue : Dialogue toUppercase commands answers client frames (some args))
    {response : Response} (plain : Response.OneLine response) :
    Dialogue toUppercase commands (answers ++ [response]) (client.write response)
      (frames ++ [.request args]) none where
  read := by
    have lines := client.write_lines response
    rw [lines.1, lines.2, dialogue.read]
    simp
  asked := by
    rw [dialogue.asked, collected_append]
    simp [collected]
  settled := by
    rw [List.length_append, dialogue.settled, collected_append]
    simp [collected]
  written := by
    rw [replies_request dialogue.settled]
    exact written_write response dialogue.written
  single := by
    rw [(client.write_lines response).2]
    exact dialogue.single
  plain := by
    rw [replies_request dialogue.settled]
    intro other listed
    rcases List.mem_append.mp listed with before | last
    · exact dialogue.plain other before
    · rw [List.mem_singleton.mp last]
      exact plain

/-- The client stops reading. -/
theorem Dialogue.hangUp (dialogue : Dialogue toUppercase commands answers client frames pending) :
    Dialogue toUppercase commands answers { client with broken := true } frames pending where
  read := dialogue.read
  asked := dialogue.asked
  settled := dialogue.settled
  written := by
    rcases dialogue.written with ⟨count, bytes, _⟩
    exact ⟨count, bytes, fun impossible => nomatch impossible⟩
  single := dialogue.single
  plain := dialogue.plain

end Dialogue
/-! ## Sessions -/

section Sessions

variable {toUppercase : String -> String} {peers : List Nat} {server after : Server} {id : Nat}
  {answer : Option Response}

/-- A command that is taken is answered at once, or the session waits for it. -/
theorem respond_client {command : Command}
    (named : forall name, command = .unknown name -> '\n' ∉ name.toList)
    (responded : server.respond peers (.client id command) = some (after, answer)) :
    Exists fun response => Response.OneLine response ∧
      ((answer = some response ∧ after.session = none) ∨
        (answer = none ∧ Exists fun index => after.session = some ⟨index, response⟩)) := by
  simp only [Server.respond] at responded
  split at responded
  · cases responded
  · rcases Outcome.bind_eq_ok.mp (toOption_eq_some.mp responded) with
      ⟨⟨node, response⟩, handled, returned⟩
    refine ⟨response, handleClientCommand_oneLine named handled, ?_⟩
    simp only at returned
    split at returned
    · next index _ =>
        cases returned
        exact Or.inr ⟨rfl, index, rfl⟩
    · cases returned
      exact Or.inl ⟨rfl, rfl⟩

/-- A poll goes on waiting, or ends with the answer to the write or the timeout. -/
theorem respond_poll {late : Bool}
    (responded : server.respond peers (.poll id late) = some (after, answer)) :
    Exists fun waiting => server.session = some waiting ∧
      ((answer = none ∧ after = server) ∨
        (after.session = none ∧ (answer = some waiting.ok ∨ answer = some timeout))) := by
  rcases Option.map_eq_some_iff.mp responded with ⟨waiting, session, equal⟩
  refine ⟨waiting, session, ?_⟩
  unfold Server.awaitCommit at equal
  split at equal
  · cases equal
    exact Or.inr ⟨rfl, Or.inl rfl⟩
  · split at equal
    · cases equal
      exact Or.inr ⟨rfl, Or.inr rfl⟩
    · cases equal
      exact Or.inl ⟨rfl, rfl⟩

/-- The name of an unknown command is a line of the stream, in capitals. -/
theorem feed_notMem_commandOf
    (capitals : forall text, '\n' ∉ text.toList -> '\n' ∉ (toUppercase text).toList)
    {stream rest : List Line} (single : forall text, Except.ok text ∈ stream -> '\n' ∉ text.toList)
    {args : List String} (turned : readFrame stream = some (.request args, rest)) {name : String}
    (unknown : commandOf toUppercase args = .unknown name) : '\n' ∉ name.toList := by
  have first : '\n' ∉ (args.headD "").toList := by
    rcases readFrame_spec turned with ⟨_, behind, rfl, _, lines⟩
    cases args with
    | nil => decide
    | cons arg others =>
        exact single arg (List.mem_cons_of_mem _ (lines _ rfl arg List.mem_cons_self))
  simp only [Network.commandOf] at unknown
  split at unknown <;> cases unknown
  exact capitals _ first

end Sessions

/-! ## Runs -/

/-- A process whose client is in a dialogue, waiting exactly when the server does. -/
structure Converses (toUppercase : String -> String) (commands : List Command)
    (answers : List Response) (host : Host) : Prop where
  idle : host.client = none -> host.server.session = none
  plain : forall waiting, host.server.session = some waiting -> Response.OneLine waiting.ok
  dialogue : forall client, host.client = some client ->
    Exists fun frames => Exists fun pending : Option (List String) =>
      Dialogue toUppercase commands answers client frames pending ∧
        (pending = none <-> host.server.session = none)

section Runs

variable {toUppercase : String -> String} {codec : Codec NetworkMessage} {deployment : Deployment}
  {commands : List Command} {answers : List Response} {host : Host}

/-- A step of the server that is of no concern to the client. -/
theorem Converses.keep (converses : Converses toUppercase commands answers host) {server : Server}
    (session : server.session = host.server.session) (inbox : List NetworkMessage) :
    Converses toUppercase commands answers ⟨server, inbox, host.client⟩ where
  idle alone := session.trans (converses.idle alone)
  plain waiting waits := converses.plain waiting (session.symm.trans waits)
  dialogue client connected := by
    rcases converses.dialogue client connected with ⟨frames, pending, dialogue, waits⟩
    exact ⟨frames, pending, dialogue, by simp only [session]; exact waits⟩

/-- Somebody is connected. -/
theorem converses_connected {client : Client} {frames : List Frame} {pending : Option (List String)}
    (connected : host.client = some client)
    (plain : forall waiting, host.server.session = some waiting -> Response.OneLine waiting.ok)
    (dialogue : Dialogue toUppercase commands answers client frames pending)
    (waits : pending = none <-> host.server.session = none) :
    Converses toUppercase commands answers host where
  idle alone := by
    rw [connected] at alone
    cases alone
  plain := plain
  dialogue other same := by
    rw [connected] at same
    cases same
    exact ⟨frames, pending, dialogue, waits⟩

/-- Nobody is served. -/
theorem converses_nobody (server : Server) (free : server.session = none)
    (inbox : List NetworkMessage) :
    Converses toUppercase commands answers ⟨server, inbox, none⟩ where
  idle _ := free
  plain waiting waits := by
    rw [show server.session = some waiting from waits] at free
    cases free
  dialogue _ impossible := nomatch impossible

/-- An answer that comes while the client waits. -/
theorem converses_answered {client : Client} {frames : List Frame} {args : List String}
    (dialogue : Dialogue toUppercase commands answers client frames (some args))
    {response : Response} (plain : Response.OneLine response) {server : Server}
    (free : server.session = none) (inbox : List NetworkMessage) :
    Converses toUppercase commands (answers ++ [response])
      ⟨server, inbox, client.reply (some response)⟩ := by
  simp only [Client.reply]
  split
  · exact converses_nobody server free inbox
  · refine converses_connected rfl (fun waiting waits => ?_) (dialogue.answer plain)
      ⟨fun _ => free, fun _ => rfl⟩
    rw [show server.session = some waiting from waits] at free
    cases free

/-- What the client of a process has asked and been answered after a step. -/
def commandsAfter (event : Event) (result : Result) (commands : List Command) : List Command :=
  match event with
  | .connect _ _ _ => []
  | _ => commands ++ result.asked.toList

/-- What the client of a process has been answered after a step. -/
def answersAfter (event : Event) (result : Result) (answers : List Response) : List Response :=
  match event with
  | .connect _ _ _ => []
  | _ => answers ++ result.answer.toList

/-- A turn of the loop refuses a frame, asks a command, or ends the connection. -/
theorem Converses.turn
    (capitals : forall text, '\n' ∉ text.toList -> '\n' ∉ (toUppercase text).toList)
    (converses : Converses toUppercase commands answers host) {id : Nat} {result : Result}
    (free : host.server.session = none)
    (turned : host.client.bind (host.turn toUppercase deployment.peers id) = some result) :
    Converses toUppercase (commands ++ result.asked.toList) (answers ++ result.answer.toList)
      result.host := by
  rcases Option.bind_eq_some_iff.mp turned with ⟨client, connected, taken⟩
  obtain ⟨frames, dialogue⟩ : Exists fun frames =>
      Dialogue toUppercase commands answers client frames none := by
    rcases converses.dialogue client connected with ⟨frames, pending, dialogue, waits⟩
    rw [waits.mpr free] at dialogue
    exact ⟨frames, dialogue⟩
  simp only [Host.turn] at taken
  split at taken
  · cases taken
    simp only [Option.toList_none, List.append_nil]
    exact converses_nobody host.server free host.inbox
  · next text rest read =>
      cases taken
      simp only [Option.toList_none, List.append_nil]
      exact converses_connected rfl converses.plain (dialogue.refuse read)
        ⟨fun _ => free, fun _ => rfl⟩
  · next args rest read =>
      rcases Option.map_eq_some_iff.mp taken with ⟨⟨server, answer⟩, asked, rfl⟩
      have requested := dialogue.request read
      rcases respond_client (fun name unknown =>
          feed_notMem_commandOf capitals dialogue.single read unknown) asked with
        ⟨response, plain, ⟨rfl, answeredNow⟩ | ⟨rfl, index, waits⟩⟩
      · exact converses_answered requested plain answeredNow host.inbox
      · simp only [Option.toList_none, List.append_nil]
        refine converses_connected rfl (fun waiting equal => ?_) requested ?_
        · cases waits.symm.trans equal
          exact plain
        · exact iff_of_false (Option.some_ne_none _) fun nothing =>
            Option.some_ne_none _ (waits.symm.trans nothing)

/-- A look at the entry that a client waits for answers it or not. -/
theorem Converses.poll (converses : Converses toUppercase commands answers host) {id : Nat}
    {late : Bool}
    {server : Server} {answer : Option Response}
    (polled : host.server.respond deployment.peers (.poll id late) = some (server, answer)) :
    Converses toUppercase commands (answers ++ answer.toList)
      ⟨server, host.inbox, host.client.bind (·.reply answer)⟩ := by
  rcases respond_poll polled with ⟨waiting, session, cases⟩
  obtain ⟨client, connected⟩ : Exists fun client => host.client = some client := by
    apply Option.ne_none_iff_exists'.mp
    intro alone
    rw [converses.idle alone] at session
    cases session
  rcases converses.dialogue client connected with ⟨frames, pending, dialogue, waits⟩
  cases pending with
  | none =>
      rw [waits.mp rfl] at session
      cases session
  | some args =>
      rw [connected]
      rcases cases with ⟨rfl, rfl⟩ | ⟨free, rfl | rfl⟩
      · simp only [Option.toList_none, List.append_nil, Option.bind_some, Client.reply]
        rw [← connected]
        exact converses
      · simp only [Option.toList_some, Option.bind_some]
        exact converses_answered dialogue (converses.plain waiting session) free host.inbox
      · simp only [Option.toList_some, Option.bind_some]
        exact converses_answered dialogue (by decide) free host.inbox

/-- One step of a process keeps its client in a dialogue. -/
theorem Converses.respond
    (capitals : forall text, '\n' ∉ text.toList -> '\n' ∉ (toUppercase text).toList)
    (converses : Converses toUppercase commands answers host) {event : Event} {result : Result}
    (responded : host.respond toUppercase codec deployment.peers event = some result) :
    Converses toUppercase (commandsAfter event result commands) (answersAfter event result answers)
      result.host := by
  cases event with
  | tick id =>
      rcases Option.map_eq_some_iff.mp responded with ⟨⟨server, answer⟩, ticked, rfl⟩
      simp only [commandsAfter, answersAfter, Option.toList_none, List.append_nil]
      cases Server.does_of_respond ticked with
      | ticks called => exact converses.keep (by rfl) host.inbox
  | connect id bytes ending =>
      simp only [Host.respond] at responded
      split at responded
      · cases responded
      · next alone =>
          cases responded
          exact converses_connected rfl converses.plain (dialogue_accepted toUppercase ending bytes)
            ⟨fun _ => converses.idle alone, fun _ => rfl⟩
  | turn id =>
      simp only [Host.respond] at responded
      split at responded
      · cases responded
      · next free => exact converses.turn capitals free responded
  | poll id late =>
      rcases Option.map_eq_some_iff.mp responded with ⟨⟨server, answer⟩, polled, rfl⟩
      simp only [commandsAfter, answersAfter, Option.toList_none, List.append_nil]
      exact converses.poll polled
  | hangUp id =>
      rcases Option.map_eq_some_iff.mp responded with ⟨client, connected, rfl⟩
      simp only [commandsAfter, answersAfter, Option.toList_none, List.append_nil]
      rcases converses.dialogue client connected with ⟨frames, pending, dialogue, waits⟩
      exact converses_connected rfl converses.plain dialogue.hangUp waits
  | accept id connection arrived ending =>
      simp only [Host.respond] at responded
      split at responded
      · cases responded
      · cases responded
        simp only [commandsAfter, answersAfter, Option.toList_none, List.append_nil]
        exact converses.keep rfl _
  | dispatch id =>
      simp only [Host.respond] at responded
      split at responded
      · cases responded
      · rcases Option.map_eq_some_iff.mp responded with ⟨⟨server, answer⟩, delivered, rfl⟩
        simp only [commandsAfter, answersAfter, Option.toList_none, List.append_nil]
        cases Server.does_of_respond delivered with
        | receives called => exact converses.keep (by rfl) _
  | restart id =>
      rcases Option.map_eq_some_iff.mp responded with ⟨⟨server, answer⟩, reopened, rfl⟩
      cases Server.does_of_respond reopened with
      | restarts opened => exact converses_nobody _ rfl _

theorem Converses.drained (converses : Converses toUppercase commands answers host) :
    Converses toUppercase commands answers host.drained :=
  ⟨converses.idle, converses.plain, converses.dialogue⟩

theorem Run.converses
    (capitals : forall text, '\n' ∉ text.toList -> '\n' ∉ (toUppercase text).toList)
    {history : List Transition} {config : Configuration}
    (run : Run toUppercase codec deployment history config) (id : Nat) :
    Converses toUppercase (asked id history) (answered id history) (config.hosts id) := by
  induction run with
  | start begins =>
      cases begins
      exact converses_nobody _ rfl _
  | @next history config after event output _ stepped inductionHypothesis =>
      rcases Configuration.step_eq_some.mp stepped with ⟨_, _, result, responded, installed⟩
      have shown : output.asked = result.asked ∧ output.answer = result.answer := by
        rw [show output = _ from congrArg Prod.snd installed]
        exact ⟨rfl, rfl⟩
      rw [show after = _ from congrArg Prod.fst installed]
      by_cases acting : event.actor = id
      · subst acting
        rw [Configuration.install_hosts_self]
        have served := (inductionHypothesis.respond capitals responded).drained
        unfold commandsAfter answersAfter at served
        rw [← shown.1, ← shown.2] at served
        simp only [asked, answered, ne_eq, not_true_eq_false, if_false]
        exact served
      · rw [Configuration.install_hosts_of_ne _ _ _ _ (Ne.symm acting), asked, if_pos acting,
          answered, if_pos acting]
        exact inductionHypothesis

/-- **Replies come in the order of the requests.**  In every run, the frames that the
client of a process has sent are replied to one by one and in order, up to one
request that it waits for: each request with the answer it was given, and anything
else with a refusal.  From the bytes that it gets, a client can read these replies,
all of them if it has not hung up. -/
theorem replies_in_order
    (capitals : forall text, '\n' ∉ text.toList -> '\n' ∉ (toUppercase text).toList)
    {history : List Transition} {config : Configuration}
    (run : Run toUppercase codec deployment history config) {id : Nat} {client : Client}
    (connected : (config.hosts id).client = some client) :
    Exists fun frames => Exists fun pending : Option (List String) => Exists fun count =>
      readFrames client.lines =
        frames ++ pending.toList.map Frame.request ++ readFrames client.unread ∧
      asked id history = (collected frames ++ pending.toList).map (commandOf toUppercase) ∧
      (replies frames (answered id history)).length = frames.length ∧
      (readReplies (bytesOf client.written)).map (List.map Response.withoutPrefix) =
        some ((replies frames (answered id history)).take count) ∧
      (client.broken = false -> frames.length ≤ count) := by
  rcases (Run.converses capitals run id).dialogue client connected with ⟨frames, pending, dialogue, _⟩
  rcases dialogue.written with ⟨count, bytes, all⟩
  have whole := length_replies dialogue.settled
  refine ⟨frames, pending, count, dialogue.read, dialogue.asked, whole, ?_, fun reads => ?_⟩
  · rw [bytes]
    exact replies_decodable fun response listed =>
      dialogue.plain response (List.mem_of_mem_take listed)
  · rw [← whole]
    exact all reads

end Runs

/-- One node without peers. -/
def hermit : Deployment where
  allNodes := [⟨1, 6381, 7001⟩]
  environment _ _ := none
  listener _ := none
  reaches := by
    intro sender config member configured different
    rw [List.mem_singleton.mp configured] at different
    exact absurd (List.mem_singleton.mp member).symm different

/-- The client sends a write, a line that is no request, and a read, and has not been
answered the read. -/
def chat : List Event :=
  List.replicate 52 (.tick 1) ++
  [.connect 1 (bytesOf "*3\r\n$3\r\nSET\r\n$1\r\nk\r\n$1\r\nv\r\nhello\r\n*2\r\n$3\r\nGET\r\n$1\r\nk\r\n")
      .broken,
    .turn 1, .poll 1 true, .turn 1]

set_option maxRecDepth 100000 in
/-- The answer to the write and the refusal of the line are on the wire. -/
theorem replies_in_order_chat :
    Exists fun history => Exists fun config => Exists fun client =>
      Run id (.ofTable []) hermit history config ∧ (config.hosts 1).client = some client ∧
      client.written = "+OK\r\n-ERR invalid protocol\r\n" ∧
      asked 1 history = [.set "k" "v"] ∧ answered 1 history = [.simpleString "OK"] ∧
      Exists fun frames => Exists fun count =>
        (readReplies (bytesOf client.written)).map (List.map Response.withoutPrefix) =
          some ((replies frames (answered 1 history)).take count) ∧ frames.length ≤ count := by
  have checked : ((processes id (.ofTable []) hermit).execute chat (.initial hermit)).any
      (fun result : List Transition × Configuration =>
        (result.2.hosts 1).client.any (fun client =>
          decide (client.written = "+OK\r\n-ERR invalid protocol\r\n" ∧ client.broken = false ∧
            asked 1 result.1 = [.set "k" "v"] ∧
            answered 1 result.1 = [.simpleString "OK"]))) = true := by
    decide +kernel
  rcases System.exists_run rfl checked with ⟨history, config, run, holds⟩
  rcases (Option.any_eq_true _ _).mp holds with ⟨client, connected, same⟩
  rcases of_decide_eq_true same with ⟨written, reads, commands, answers⟩
  rcases replies_in_order (fun _ single => single) run connected with
    ⟨frames, _, count, _, _, _, read, all⟩
  exact ⟨history, config, _, run, connected, written, commands, answers, frames, count, read,
    all reads⟩

/-! ## Well-formed requests -/

theorem collected_requests (requests : List (List String)) :
    collected (requests.map Frame.request) = requests := by
  unfold collected
  rw [List.filterMap_map]
  exact List.filterMap_some

/-- Among requests alone the replies are the answers. -/
theorem replies_requests {requests : List (List String)} {answers : List Response}
    (settled : answers.length = requests.length) :
    replies (requests.map Frame.request) answers = answers := by
  induction requests generalizing answers with
  | nil =>
      rw [List.length_eq_zero_iff.mp settled]
      rfl
  | cons args requests inductionHypothesis =>
      cases answers with
      | nil => cases settled
      | cons answer answers =>
          rw [List.map_cons, replies, inductionHypothesis (Nat.succ.inj settled)]

/-- **Requests are answered one by one.**  In every run, a client that sends requests
of arguments without line feeds has asked the first of them, in order, and has been
answered all of these but perhaps the last.  The bytes that it gets are these answers,
all of them if it has not hung up, and can be read as such. -/
theorem requests_answered {toUppercase : String -> String} {codec : Codec NetworkMessage}
    {deployment : Deployment}
    (capitals : forall text, '\n' ∉ text.toList -> '\n' ∉ (toUppercase text).toList)
    {history : List Transition} {config : Configuration}
    (run : Run toUppercase codec deployment history config) {id : Nat} {client : Client}
    (connected : (config.hosts id).client = some client) {requests : List Request}
    (single : forall request, request ∈ requests -> forall arg, arg ∈ request.args ->
      '\n' ∉ arg.toList)
    (sends : client.lines = clientLines .closed (bytesOf (encodeAll requests))) :
    Exists fun pending => Exists fun count => pending ≤ 1 ∧
      (answered id history).length + pending ≤ requests.length ∧
      asked id history = ((requests.take ((answered id history).length + pending)).map
        Request.args).map (commandOf toUppercase) ∧
      bytesOf client.written = replyBytes ((answered id history).take count) ∧
      (readReplies (bytesOf client.written)).map (List.map Response.withoutPrefix) =
        some ((answered id history).take count) ∧
      (client.broken = false -> (answered id history).length ≤ count) := by
  rcases (Run.converses capitals run id).dialogue client connected with ⟨frames, pending, dialogue, _⟩
  rcases dialogue.written with ⟨count, bytes, all⟩
  have split := dialogue.read
  rw [sends, ← @String.ofList_toList (encodeAll requests), clientLines_bytesOf,
    String.ofList_toList, readFrames_encodeAll single, ← Function.comp_def Frame.request Request.args,
    ← List.map_map] at split
  have length := congrArg List.length split
  simp only [List.length_append, List.length_map] at length
  have front : frames = ((requests.map Request.args).take frames.length).map Frame.request := by
    have taken := congrArg (List.take frames.length) split
    rw [List.append_assoc, List.take_left, ← List.map_take] at taken
    exact taken.symm
  have asks : collected frames ++ pending.toList =
      (requests.map Request.args).take (frames.length + pending.toList.length) := by
    have taken := congrArg (fun list => collected (list.take (frames.length + pending.toList.length)))
      split
    rw [List.take_left' (by rw [List.length_append, List.length_map]), ← List.map_take,
      collected_requests, collected_append, collected_requests] at taken
    exact taken.symm
  have settled : (answered id history).length = frames.length := by
    have collects := congrArg collected front
    rw [collected_requests] at collects
    rw [dialogue.settled, collects, List.length_take, List.length_map]
    omega
  have same : replies frames (answered id history) = answered id history := by
    rw [front]
    refine replies_requests ?_
    rw [settled, List.length_take, List.length_map]
    omega
  rw [same] at bytes all
  refine ⟨pending.toList.length, count, ?_, ?_, ?_, bytes, ?_, all⟩
  · cases pending with
    | none => exact Nat.zero_le _
    | some args => exact Nat.le_refl _
  · rw [settled]
    omega
  · rw [dialogue.asked, asks, settled]
    exact congrArg (List.map _) List.map_take.symm
  · rw [bytes]
    refine replies_decodable fun response listed => dialogue.plain response ?_
    rw [same]
    exact List.mem_of_mem_take listed

/-- A write and a read. -/
def orders : List Request :=
  [⟨["SET", "k", "v"], by decide, by decide⟩, ⟨["GET", "k"], by decide, by decide⟩]

set_option maxRecDepth 100000 in
/-- The write is answered, and the read has been asked of a server that leads. -/
theorem requests_answered_orders :
    Exists fun history => Exists fun config => Exists fun client =>
      Run id (.ofTable []) hermit history config ∧ (config.hosts 1).client = some client ∧
      answered 1 history = [.simpleString "OK", .bulkString "v"] ∧
      Exists fun count => 2 ≤ count ∧
        (readReplies (bytesOf client.written)).map (List.map Response.withoutPrefix) =
          some ([.simpleString "OK", .bulkString "v"].take count) := by
  have checked : ((processes id (.ofTable []) hermit).execute
      (List.replicate 52 (.tick 1) ++ [.connect 1 (bytesOf (encodeAll orders)) .closed, .turn 1,
        .poll 1 true, .turn 1]) (.initial hermit)).any
      (fun result : List Transition × Configuration =>
        (result.2.hosts 1).client.any (fun client =>
          decide (client.lines = clientLines .closed (bytesOf (encodeAll orders)) ∧
            client.broken = false ∧
            answered 1 result.1 = [.simpleString "OK", .bulkString "v"]))) = true := by
    decide +kernel
  rcases System.exists_run rfl checked with ⟨history, config, run, holds⟩
  rcases (Option.any_eq_true _ _).mp holds with ⟨client, connected, same⟩
  rcases of_decide_eq_true same with ⟨sends, reads, answers⟩
  rcases requests_answered (fun _ single => single) run connected (by decide) sends with
    ⟨_, count, _, _, _, _, read, all⟩
  rw [answers] at read all
  exact ⟨history, config, client, run, connected, answers, count, all reads, read⟩

end Wire
end Service
end RaftStore
