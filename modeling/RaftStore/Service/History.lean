import RaftStore.Service.Acknowledgement
import RaftStore.Service.Recovery

namespace RaftStore
namespace Service

open Raft Storage Systems Cluster Consensus

/-!
# One history behind all servers

A read is answered from the storage engine of the server that is asked, whether
it leads or not.  So a client may be told of old values.  It is not told of
values that never were: the servers have one list of entries, the longest part of
a log that any of them has applied, and the log of each begins with as much of it
as that server has ever applied.  A read at a server finds the map that these
entries make.  A server only moves forward in the list, also across its restarts,
and an acknowledged write is in it at a point that the acknowledging server has
passed.
-/

/-- What a client is told about a key. -/
def replyTo : Option String -> Response
  | some value => .bulkString value
  | none => .null

/-- The command of the entry was asked for by a client. -/
def WrittenIn (history : List Transition) (entry : LogEntry) : Prop :=
  Exists fun transition => transition ∈ history ∧ Exists fun command => Exists fun ok =>
    transition.event.request = some command ∧ command.written = some (entry.command, ok)

/-- A run went through this state, with this history behind it, or ends there. -/
def PassedBy (history : List Transition) (final : Configuration) (older : List Transition)
    (state : Configuration) : Prop :=
  (older = history ∧ state = final) ∨ Exists fun newer => Exists fun transition =>
    history = newer ++ transition :: older ∧ state = transition.source

/-- The log of a server begins with the first entries of the list, as many as it has
ever applied.  Everything it has committed is among them. -/
structure KeepsTo (older : List Transition) (state : Configuration) (whole : List LogEntry)
    (id : Nat) : Prop where
  inside : reach id older state ≤ (state.raft id).state.log.lastIndex
  within : reach id older state ≤ whole.length
  logged : (state.raft id).state.log.body.take (reach id older state) =
    whole.take (reach id older state)
  committed : (state.raft id).state.commitIndex ≤ reach id older state

/-- Every read is answered from the part of the list that the server has applied
before it. -/
def Reads (history : List Transition) (whole : List LogEntry) : Prop :=
  forall newer config id key answer after older,
    history = newer ++ ⟨config, .client id (.get key), answer, after⟩ :: older ->
    reach id older config ≤ whole.length ∧
      answer = some (replyTo (contents (whole.take (reach id older config)) key))

/-- The servers follow one list of entries, all asked for by clients, and some server
has applied it to its end.  No server moves back in it. -/
structure OneHistory (peers : List Nat) (history : List Transition) (final : Configuration)
    (whole : List LogEntry) : Prop where
  written : forall entry, entry ∈ whole -> WrittenIn history entry
  ends : whole = [] ∨ Exists fun id => id ∈ peers ∧ reach id history final = whole.length
  keepsTo : forall older state, PassedBy history final older state -> forall id, id ∈ peers ->
    KeepsTo older state whole id
  forward : forall newer older later state, PassedBy history final older state ->
    PassedBy history final (newer ++ older) later -> forall id,
    reach id older state ≤ reach id (newer ++ older) later
  reads : Reads history whole

/-- Every write that was answered by anything but the timeout is in the list at its
index, and the server has applied it at the time of the answer. -/
def Acknowledges (history : List Transition) (whole : List LogEntry) : Prop :=
  forall newer config id late reply after older,
    history = newer ++ ⟨config, .poll id late, some reply, after⟩ :: older -> reply ≠ timeout ->
    Exists fun position => Exists fun entry => Appended older id (position + 1) entry reply ∧
      whole[position]? = some entry ∧ position < reach id older config

/-- Node 2 is asked before and after it is told again of all three writes, crashes
once more, and a client is answered at node 1. -/
def readings : List Event :=
  threeWrites ++
  [.client 2 (.get "k"), reminder, .client 2 (.get "j"), .crash reminder 3, .client 2 (.get "k"),
   .poll 1 false, .client 1 (.get "j")]

section Results

variable {peers : List Nat} {full history older : List Transition}
  {config final state next : Configuration} {image : Cluster.Configuration}
  {ledger later : Ledger Nat LogEntry} {whole longer : List LogEntry} {event : Event}
  {answer : Option Response}

/-! ## Moments of a run -/

/-- The last step of a history, or an earlier one. -/
theorem split_cons {last transition : Transition} {newer older : List Transition}
    (split : last :: history = newer ++ transition :: older) :
    (transition = last ∧ older = history) ∨
    Exists fun rest => history = rest ++ transition :: older := by
  rcases List.cons_eq_append_iff.mp split with ⟨_, now⟩ | ⟨rest, _, before⟩
  · cases now
    exact Or.inl ⟨rfl, rfl⟩
  · exact Or.inr ⟨rest, before⟩

/-- A run ends, or it went through the moment before its last step. -/
theorem passedBy_cons
    (passed : PassedBy (⟨config, event, answer, next⟩ :: history) next older state) :
    (older = ⟨config, event, answer, next⟩ :: history ∧ state = next) ∨
    PassedBy history config older state := by
  rcases passed with ended | ⟨newer, transition, split, rfl⟩
  · exact Or.inl ended
  · right
    rcases split_cons split with ⟨rfl, rfl⟩ | ⟨rest, before⟩
    · exact Or.inl ⟨rfl, rfl⟩
    · exact Or.inr ⟨rest, transition, before, rfl⟩

theorem everApplied_append (id : Nat) (newer older : List Transition) :
    everApplied id older ≤ everApplied id (newer ++ older) := by
  induction newer with
  | nil => exact Nat.le_refl _
  | cons transition rest inductionHypothesis =>
      exact Nat.le_trans inductionHypothesis (Nat.le_max_right _ _)

/-- What a server has applied before a step of the history counts after it. -/
theorem reach_le_everApplied (id : Nat) (newer : List Transition) (transition : Transition)
    (older : List Transition) :
    reach id older transition.source ≤ everApplied id (newer ++ transition :: older) := by
  have here := lastApplied_le_appliedAt id transition
  refine Nat.le_trans ?_ (everApplied_append id newer (transition :: older))
  simp only [reach, everApplied]
  omega

/-- Two moments of a run with the same history behind them are the same. -/
theorem passedBy_unique {first second : Configuration} (left : PassedBy history final older first)
    (right : PassedBy history final older second) : first = second := by
  have longer : forall newer transition, history = newer ++ transition :: older ->
      older ≠ history := by
    rintro newer transition split rfl
    have length := congrArg List.length split
    simp only [List.length_append, List.length_cons] at length
    omega
  rcases left with ⟨rfl, rfl⟩ | ⟨newer, transition, split, rfl⟩
  · rcases right with ⟨_, rfl⟩ | ⟨newer, transition, split, _⟩
    · rfl
    · exact absurd rfl (longer newer transition split)
  · rcases right with ⟨ended, _⟩ | ⟨newer', transition', again, rfl⟩
    · exact absurd ended (longer newer transition split)
    · rw [split] at again
      have parts := List.append_inj' again (by simp)
      cases parts.2
      rfl

theorem PassedBy.suffix (passed : PassedBy history final older state) : older <:+ history := by
  rcases passed with ⟨rfl, _⟩ | ⟨newer, transition, split, _⟩
  · exact List.suffix_refl _
  · exact ⟨newer ++ [transition], by rw [split, List.append_assoc]; rfl⟩

/-- No server moves back. -/
theorem reach_forward {newer : List Transition} {after : Configuration}
    (first : PassedBy history final older state)
    (second : PassedBy history final (newer ++ older) after) (id : Nat) :
    reach id older state ≤ reach id (newer ++ older) after := by
  cases newer with
  | nil =>
      rw [passedBy_unique first second]
      exact Nat.le_refl _
  | cons last rest =>
      -- the step taken at the first moment is in the later history
      have longer := second.suffix
      rcases first with ⟨rfl, _⟩ | ⟨between, transition, split, rfl⟩
      · have length := longer.length_le
        simp only [List.cons_append, List.length_cons, List.length_append] at length
        omega
      · have tail : transition :: older <:+ history := ⟨between, split.symm⟩
        have length : (transition :: older).length ≤ (last :: rest ++ older).length := by
          simp only [List.cons_append, List.length_cons, List.length_append]
          omega
        rcases List.suffix_of_suffix_length_le tail longer length with ⟨others, equal⟩
        rw [← equal]
        exact Nat.le_trans (reach_le_everApplied id others transition older) (Nat.le_max_right _ _)

/-! ## The growing list -/

/-- What a part of the list shows does not change when the list grows. -/
theorem take_of_isPrefix (grows : whole <+: longer) {count : Nat} (bound : count ≤ whole.length) :
    longer.take count = whole.take count :=
  take_eq_of_isPrefix bound ((List.take_prefix count whole).trans grows)

theorem KeepsTo.mono {id : Nat} (keepsTo : KeepsTo older state whole id)
    (grows : whole <+: longer) : KeepsTo older state longer id where
  inside := keepsTo.inside
  within := Nat.le_trans keepsTo.within grows.length_le
  logged := by
    rw [take_of_isPrefix grows keepsTo.within]
    exact keepsTo.logged
  committed := keepsTo.committed

/-- Two durable prefixes have a durable one above them that has no other
entries. -/
theorem SoundFor.join (sound : SoundFor peers ledger) {term other : Nat} {left right : List LogEntry}
    (first : Durable peers.toFinset LogEntry.term ledger term left)
    (second : Durable peers.toFinset LogEntry.term ledger other right) :
    Exists fun join => left <+: join ∧ right <+: join ∧ (join = left ∨ join = right) ∧
      Exists fun term => Durable peers.toFinset LogEntry.term ledger term join := by
  rcases sound.durable_comparable first second with shorter | longer
  · exact ⟨right, shorter, List.prefix_rfl, Or.inr rfl, other, second⟩
  · exact ⟨left, List.prefix_rfl, longer, Or.inl rfl, term, first⟩

/-! ## The invariant -/

/-- An entry that a client asked for, or the sentinel of a log. -/
def FromClients (full : List Transition) (entry : LogEntry) : Prop :=
  entry.term = 0 ∨ WrittenIn full entry

/-- No server has a router. -/
def Unsharded (config : Configuration) : Prop :=
  forall id, (config.servers id).node.router = none

/-- The list so far, which contains what every server has applied. -/
structure Chronicle (peers : List Nat) (full history : List Transition) (config : Configuration)
    (image : Cluster.Configuration) (ledger : Ledger Nat LogEntry) (whole : List LogEntry) :
    Prop where
  recovers : Recovers peers history config image ledger
  carries : Carries peers (FromClients full) image
  durable : Exists fun term => Durable peers.toFinset LogEntry.term ledger term whole
  covers : forall id, id ∈ peers -> (ledger.log id).take (reach id history config) <+: whole
  written : forall entry, entry ∈ whole -> WrittenIn full entry
  ends : whole = [] ∨ Exists fun id => id ∈ peers ∧ reach id history config = whole.length

/-- The entries of a log are from clients. -/
theorem Recovers.written_of_log (recovers : Recovers peers history config image ledger)
    (carries : Carries peers (FromClients full) image) {id : Nat} (member : id ∈ peers)
    {entry : LogEntry} (listed : entry ∈ ledger.log id) : WrittenIn full entry := by
  have represents := recovers.simulates.nodes id member
  have present : entry ∈ (image.nodes id).state.log.entries := by
    rw [represents.log_eq]
    exact List.mem_cons_of_mem _ listed
  rcases carries.logs id member entry present with sentinel | written
  · have positive := recovers.sound.term_pos_of_rooted (recovers.sound.log_rooted id) listed
    omega
  · exact written

/-- Every step of the servers extends the list by what the acting server has applied
afterwards. -/
theorem Chronicle.step (distinct : peers.Nodup)
    (chronicle : Chronicle peers full history config image ledger whole)
    (covered : ⟨config, event, answer, next⟩ :: history ⊆ full) (clean : CleanRequest event)
    (careful : Careful config event) (catches : CatchesUpAt history config event)
    (stepped : config.step peers event = some (next, answer)) :
    Exists fun after => Exists fun later => Exists fun longer => whole <+: longer ∧
      Chronicle peers full (⟨config, event, answer, next⟩ :: history) next after later longer := by
  have member := (Configuration.step_eq_some.mp stepped).1
  rcases chronicle.recovers.proceeds distinct clean careful catches stepped with
    ⟨after, later, proceeds⟩
  have sound := proceeds.recovers.sound
  have requested : Requests (FromClients full) event := fun command logged ok asked written term =>
    Or.inr ⟨_, covered List.mem_cons_self, command, ok, asked, written⟩
  have carries := proceeds.carries (FromClients full) requested chronicle.carries
  have reflected := proceeds.recovers.reflects _ member
  rcases chronicle.durable with ⟨term, durable⟩
  rcases SoundFor.join sound (durable.mono proceeds.grows (Nat.le_refl term)) reflected.durable with
    ⟨longer, grows, covers, alternatives, stays⟩
  refine ⟨after, later, longer, grows, proceeds.recovers, carries, stays, ?_, ?_, ?_⟩
  · intro id listed
    by_cases acting : id = event.actor
    · subst acting
      exact covers
    · rcases proceeds.others id listed acting with ⟨sameLog, sameReach⟩
      rw [sameLog, sameReach]
      exact (chronicle.covers id listed).trans grows
  · intro entry listed
    rcases alternatives with rfl | rfl
    · exact chronicle.written entry listed
    · exact proceeds.recovers.written_of_log carries member (List.mem_of_mem_take listed)
  · rcases alternatives with rfl | rfl
    · -- the list is the old one: the server that had applied it to its end still has
      refine chronicle.ends.imp_right ?_
      rintro ⟨id, listed, reached⟩
      refine ⟨id, listed, Nat.le_antisymm ?_ ?_⟩
      · have bound := (proceeds.recovers.reflects id listed).bound
        by_cases acting : id = event.actor
        · subst acting
          have length := covers.length_le
          rw [List.length_take_of_le bound] at length
          exact length
        · rw [(proceeds.others id listed acting).2, reached]
      · rw [← reached]
        exact reach_le_next id ⟨config, event, answer, next⟩ history
    · refine Or.inr ⟨_, member, ?_⟩
      rw [List.length_take_of_le reflected.bound]

theorem unsharded_step (unsharded : Unsharded config)
    (stepped : config.step peers event = some (next, answer)) : Unsharded next := by
  rcases Configuration.step_eq_some.mp stepped with ⟨_, _, server, responded, rfl⟩
  have own : server.node.router = none := by
    have before := unsharded event.actor
    cases Server.does_of_respond responded with
    | restarts reopened =>
        rcases ClusterNode.new_eq_ok reopened with ⟨_, _, rfl⟩
        rfl
    | crashes _ _ _ reopened =>
        rcases ClusterNode.new_eq_ok reopened with ⟨_, _, rfl⟩
        rfl
    | _ => exact before
  intro id
  by_cases acting : id = event.actor
  · subst acting
    rw [Configuration.install_servers_self]
    exact own
  · rw [Configuration.install_servers_of_ne _ _ _ acting]
    exact unsharded id

theorem Run.unsharded (run : Run peers history config) : Unsharded config := by
  induction run with
  | start begins =>
      cases begins
      exact fun _ => rfl
  | next _ stepped inductionHypothesis => exact unsharded_step inductionHypothesis stepped

/-- A read is answered from the storage of the server. -/
theorem answer_of_get (unsharded : Unsharded config) {id : Nat} {key : String}
    (stepped : config.step peers (.client id (.get key)) = some (next, answer)) :
    answer = some (replyTo ((config.storage id).get key)) := by
  rcases Configuration.step_eq_some.mp stepped with ⟨_, _, server, responded, _⟩
  have alone : (config.servers id).node.router = none := unsharded id
  simp only [Server.respond, Event.actor] at responded
  cases free : (config.servers id).session with
  | some waiting =>
      rw [free] at responded
      cases responded
  | none =>
      rw [free] at responded
      have asked := toOption_eq_some.mp responded
      simp only [Server.ask, ClusterNode.handleClientCommand, ClusterNode.moved, alone] at asked
      cases found : (config.servers id).node.storage.get key with
      | none =>
          rw [found] at asked
          cases asked
          rw [Configuration.storage, found]
          rfl
      | some value =>
          rw [found] at asked
          cases asked
          rw [Configuration.storage, found]
          rfl

/-- What a server shows is made by the entries that it has ever applied. -/
theorem Chronicle.shows (chronicle : Chronicle peers full history config image ledger whole)
    {id : Nat} (member : id ∈ peers) :
    (config.storage id).get = contents (whole.take (reach id history config)) := by
  have reflects := chronicle.recovers.reflects id member
  rw [reflects.shows, take_eq_of_isPrefix reflects.bound (chronicle.covers id member)]

theorem Chronicle.keepsTo (chronicle : Chronicle peers full history config image ledger whole)
    {id : Nat} (member : id ∈ peers) : KeepsTo history config whole id := by
  have reflects := chronicle.recovers.reflects id member
  have part := chronicle.covers id member
  have represents := chronicle.recovers.simulates.nodes id member
  have settled := chronicle.recovers.commits.nodes id member
  rw [chronicle.recovers.projects.nodes] at represents settled
  have length := part.length_le
  rw [List.length_take_of_le reflects.bound] at length
  refine ⟨?_, length, ?_, ?_⟩
  · rw [RaftLog.lastIndex_eq_length_body, represents.log_eq, RaftLog.body_mk]
    exact reflects.bound
  · rw [represents.log_eq, RaftLog.body_mk, take_eq_of_isPrefix reflects.bound part]
  · rw [← settled.applied]
    exact Nat.le_max_left _ _

/-- An entry that a server has committed is in the list, at a point that the server
has passed. -/
theorem KeepsTo.get_of_committed {id position : Nat} (keepsTo : KeepsTo history config whole id)
    {entry : LogEntry} (present : (config.raft id).state.log.get (position + 1) = some entry)
    (committed : position + 1 ≤ (config.raft id).state.commitIndex) :
    whole[position]? = some entry ∧ position < reach id history config := by
  have passed : position < reach id history config :=
    Nat.lt_of_lt_of_le committed keepsTo.committed
  have found : ((config.raft id).state.log.body.take (reach id history config))[position]? =
      some entry := by
    rw [List.getElem?_take_of_lt passed, ← RaftLog.get_succ]
    exact present
  rw [keepsTo.logged, List.getElem?_take_of_lt passed] at found
  exact ⟨found, passed⟩

/-! ## Whole runs -/

theorem Chronicle.reads_next (chronicle : Chronicle peers full history config image ledger whole)
    (reads : Reads history whole) (unsharded : Unsharded config) (grows : whole <+: longer)
    (stepped : config.step peers event = some (next, answer)) :
    Reads (⟨config, event, answer, next⟩ :: history) longer := by
  intro newer source id key reply after older split
  rcases split_cons split with ⟨now, rfl⟩ | ⟨rest, before⟩
  · cases now
    have member : id ∈ peers := (Configuration.step_eq_some.mp stepped).1
    have within := (chronicle.keepsTo member).within
    refine ⟨Nat.le_trans within grows.length_le, ?_⟩
    rw [take_of_isPrefix grows within, ← chronicle.shows member]
    exact answer_of_get unsharded stepped
  · rcases reads _ _ _ _ _ _ _ before with ⟨within, answered⟩
    rw [take_of_isPrefix grows within]
    exact ⟨Nat.le_trans within grows.length_le, answered⟩

/-- No client waits for the sentinel of the log. -/
theorem Chronicle.get_zero_ne_appended
    (chronicle : Chronicle peers full history config image ledger whole) {id : Nat}
    (member : id ∈ peers) {entry : LogEntry} {ok : Response}
    (appended : Appended history id 0 entry ok)
    (present : (config.raft id).state.log.get 0 = some entry) : False := by
  have represents := chronicle.recovers.simulates.nodes id member
  rw [chronicle.recovers.projects.nodes] at represents
  rw [represents.get_zero] at present
  cases present
  rcases appended.asked with ⟨asked, command, _, _, written, _⟩
  cases command <;> cases written

theorem Chronicle.acknowledges_next
    (chronicle : Chronicle peers full history config image ledger whole)
    (acknowledges : Acknowledges history whole) (keeps : Keeps history config)
    (grows : whole <+: longer) (stepped : config.step peers event = some (next, answer)) :
    Acknowledges (⟨config, event, answer, next⟩ :: history) longer := by
  intro newer source id late reply after older split notTimeout
  rcases split_cons split with ⟨now, rfl⟩ | ⟨rest, before⟩
  · cases now
    rcases Configuration.step_eq_some.mp stepped with ⟨member, _, server, responded, _⟩
    cases Server.does_of_respond responded with
    | @acknowledges _ _ waiting session reached =>
        rcases keeps id _ session with ⟨entry, appended, present⟩
        obtain ⟨position, index⟩ : Exists fun position => waiting.index = position + 1 :=
          Nat.exists_eq_succ_of_ne_zero fun zero =>
            chronicle.get_zero_ne_appended member (zero ▸ appended) (zero ▸ present)
        rw [index] at appended present reached
        rcases (chronicle.keepsTo member).get_of_committed present reached with ⟨found, passed⟩
        exact ⟨position, entry, appended, getElem?_of_isPrefix grows found, passed⟩
    | expires => exact absurd rfl notTimeout
  · rcases acknowledges _ _ _ _ _ _ _ before notTimeout with
      ⟨position, entry, appended, found, passed⟩
    exact ⟨position, entry, appended, getElem?_of_isPrefix grows found, passed⟩

theorem chronicle_initial (peers : List Nat) (full : List Transition) :
    Chronicle peers full [] (.initial peers) (.initial peers)
      (Ledger.blank : Ledger Nat LogEntry) [] where
  recovers := recovers_initial peers
  carries := ⟨fun id _ entry listed => by
    rw [List.mem_singleton.mp listed]
    exact Or.inl rfl, fun _ _ _ listed => (List.not_mem_nil listed).elim⟩
  durable := ⟨0, Or.inl rfl⟩
  covers _ _ := List.nil_prefix
  written _ listed := (List.not_mem_nil listed).elim
  ends := Or.inl rfl

/-- The list at the end of a run, with what was seen of it on the way. -/
structure Chronicled (peers : List Nat) (full history : List Transition) (config : Configuration)
    (image : Cluster.Configuration) (ledger : Ledger Nat LogEntry) (whole : List LogEntry) :
    Prop where
  chronicle : Chronicle peers full history config image ledger whole
  keepsTo : forall older state, PassedBy history config older state -> forall id, id ∈ peers ->
    KeepsTo older state whole id
  reads : Reads history whole
  acknowledges : Meets Undisturbed history -> Acknowledges history whole

theorem Run.chronicle (distinct : peers.Nodup) (run : Run peers history config)
    (clean : Meets (fun _ => CleanRequest) history) (careful : Meets Careful history)
    (catches : CatchesUp history) (covered : history ⊆ full) :
    Exists fun image => Exists fun ledger => Exists fun whole =>
      Chronicled peers full history config image ledger whole := by
  induction run with
  | start begins =>
      cases begins
      have chronicle := chronicle_initial peers full
      refine ⟨_, _, _, chronicle, ?_, ?_, ?_⟩
      · rintro older state (⟨rfl, rfl⟩ | ⟨newer, _, split, _⟩) id member
        · exact chronicle.keepsTo member
        · cases newer <;> cases split
      · intro newer _ _ _ _ _ _ split
        cases newer <;> cases split
      · intro _ newer _ _ _ _ _ _ split
        cases newer <;> cases split
  | next run stepped inductionHypothesis =>
      have before := List.subset_of_cons_subset covered
      rcases inductionHypothesis clean.earlier careful.earlier catches.2 before with
        ⟨image, ledger, whole, chronicled⟩
      rcases chronicled.chronicle.step distinct covered clean.last careful.last catches.1 stepped with
        ⟨after, later, longer, grows, chronicle⟩
      refine ⟨after, later, longer, chronicle, ?_, ?_, fun undisturbed => ?_⟩
      · intro older state passed id member
        rcases passedBy_cons passed with ⟨rfl, rfl⟩ | earlier
        · exact chronicle.keepsTo member
        · exact (chronicled.keepsTo older state earlier id member).mono grows
      · exact chronicled.chronicle.reads_next chronicled.reads (Run.unsharded run) grows stepped
      · exact chronicled.chronicle.acknowledges_next (chronicled.acknowledges undisturbed.earlier)
          (Run.keeps run undisturbed.earlier) grows stepped

theorem Chronicled.oneHistory
    (chronicled : Chronicled peers history history config image ledger whole) :
    OneHistory peers history config whole where
  written := chronicled.chronicle.written
  ends := chronicled.chronicle.ends
  keepsTo := chronicled.keepsTo
  forward _ _ _ _ first second id := reach_forward first second id
  reads := chronicled.reads

/-- **One history.**  In a run of clean requests whose steps are careful and catch up
with what was ever applied, the servers follow one list of entries, and every read at
any of them is answered from the part that it has applied. -/
theorem servers_follow (distinct : peers.Nodup) (run : Run peers history config)
    (clean : Meets (fun _ => CleanRequest) history) (careful : Meets Careful history)
    (catches : CatchesUp history) :
    Exists fun whole => OneHistory peers history config whole := by
  rcases Run.chronicle distinct run clean careful catches (List.Subset.refl history) with
    ⟨_, _, whole, chronicled⟩
  exact ⟨whole, chronicled.oneHistory⟩

set_option maxRecDepth 100000 in
/-- After its restart and after its crash node 2 still shows all three writes to its
readers. -/
theorem servers_follow_readings :
    Exists fun history => Exists fun final => Run [1, 2, 3] history final ∧
      (history.any (fun transition => decide (transition.event = .client 2 (.get "k") ∧
        transition.output = some (.bulkString "b"))) = true) ∧
      Exists fun whole => OneHistory [1, 2, 3] history final whole := by
  have checked : (execute [1, 2, 3] readings).any (fun result =>
      decide (Meets (fun _ => CleanRequest) result.1 ∧ Meets Careful result.1 ∧
        CatchesUp result.1) && result.1.any (fun transition =>
          decide (transition.event = .client 2 (.get "k") ∧
            transition.output = some (.bulkString "b")))) = true := by decide +kernel
  rcases exists_run checked with ⟨history, final, run, holds⟩
  rcases Bool.and_eq_true_iff.mp holds with ⟨conditions, read⟩
  rcases of_decide_eq_true conditions with ⟨clean, careful, catches⟩
  exact ⟨history, final, run, read, servers_follow (by decide) run clean careful catches⟩

/-- **Acknowledged writes stay.**  If moreover no waiting client's entry is
replaced, then every acknowledged write is in that list at its index, and the
acknowledging server has applied it, so that from its answer on all reads there are
answered from a part of the list that contains it. -/
theorem acknowledged_read (distinct : peers.Nodup) (run : Run peers history config)
    (clean : Meets (fun _ => CleanRequest) history) (careful : Meets Careful history)
    (catches : CatchesUp history) (undisturbed : Meets Undisturbed history) :
    Exists fun whole => OneHistory peers history config whole ∧ Acknowledges history whole := by
  rcases Run.chronicle distinct run clean careful catches (List.Subset.refl history) with
    ⟨_, _, whole, chronicled⟩
  exact ⟨whole, chronicled.oneHistory, chronicled.acknowledges undisturbed⟩

set_option maxRecDepth 100000 in
/-- The third write is acknowledged at node 1 and read there. -/
theorem acknowledged_read_readings :
    Exists fun history => Exists fun final => Run [1, 2, 3] history final ∧
      (history.any (fun transition => decide (transition.event = .poll 1 false ∧
        transition.output = some (.simpleString "OK"))) = true) ∧
      Exists fun whole => OneHistory [1, 2, 3] history final whole ∧
        Acknowledges history whole := by
  have checked : (execute [1, 2, 3] readings).any (fun result =>
      decide (Meets (fun _ => CleanRequest) result.1 ∧ Meets Careful result.1 ∧
        CatchesUp result.1 ∧ Meets Undisturbed result.1) && result.1.any (fun transition =>
          decide (transition.event = .poll 1 false ∧
            transition.output = some (.simpleString "OK")))) = true := by decide +kernel
  rcases exists_run checked with ⟨history, final, run, holds⟩
  rcases Bool.and_eq_true_iff.mp holds with ⟨conditions, answered⟩
  rcases of_decide_eq_true conditions with ⟨clean, careful, catches, undisturbed⟩
  exact ⟨history, final, run, answered,
    acknowledged_read (by decide) run clean careful catches undisturbed⟩

end Results
end Service
end RaftStore
