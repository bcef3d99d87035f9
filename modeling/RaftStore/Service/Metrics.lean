import RaftStore.Collections.Samples
import RaftStore.Network.Replies
import RaftStore.Service.Recovery
import RaftStore.Service.Shadows

namespace RaftStore
namespace Service

open Raft Systems Collections Network

/-!
# What monitoring shows

This file embeds `metrics.rs`.  Whatever is asked of the metrics port, the answer is
the state of the Raft node as gauges in a small web page.  The reader of a scraper is not
part of the source: what is here is the reader that the two formats prescribe.
-/

/-! ## The answer to a scrape -/

/-- The role as a number. -/
def roleNum : NodeRole -> Nat
  | .follower => 0
  | .candidate => 1
  | .leader => 2

/-- The role as a label. -/
def roleStr : NodeRole -> String
  | .follower => "follower"
  | .candidate => "candidate"
  | .leader => "leader"

/-- The gauges of a node. -/
def generateMetrics (node : ClusterNode) (nodeId : Nat) : String :=
  let state := node.raft.state
  let output := ""
  let output := output ++ "# HELP raftkv_current_term The current Raft term\n"
  let output := output ++ "# TYPE raftkv_current_term gauge\n"
  let output := output ++ ("raftkv_current_term\x7bnode=\"" ++ toString nodeId ++ "\"\x7d " ++
    toString state.currentTerm ++ "\n")
  let output := output ++ "# HELP raftkv_role Current role (0=follower, 1=candidate, 2=leader)\n"
  let output := output ++ "# TYPE raftkv_role gauge\n"
  let output := output ++ ("raftkv_role\x7bnode=\"" ++ toString nodeId ++ "\",role=\"" ++
    roleStr state.role ++ "\"\x7d " ++ toString (roleNum state.role) ++ "\n")
  let output := output ++ "# HELP raftkv_commit_index The highest committed log index\n"
  let output := output ++ "# TYPE raftkv_commit_index gauge\n"
  let output := output ++ ("raftkv_commit_index\x7bnode=\"" ++ toString nodeId ++ "\"\x7d " ++
    toString state.commitIndex ++ "\n")
  let output := output ++ "# HELP raftkv_last_applied The highest applied log index\n"
  let output := output ++ "# TYPE raftkv_last_applied gauge\n"
  let output := output ++ ("raftkv_last_applied\x7bnode=\"" ++ toString nodeId ++ "\"\x7d " ++
    toString state.lastApplied ++ "\n")
  let output := output ++ "# HELP raftkv_log_length Number of entries in the Raft log\n"
  let output := output ++ "# TYPE raftkv_log_length gauge\n"
  let output := output ++ ("raftkv_log_length\x7bnode=\"" ++ toString nodeId ++ "\"\x7d " ++
    toString state.log.lastIndex ++ "\n")
  let output := output ++ "# HELP raftkv_is_leader Whether this node is the leader (1=yes, 0=no)\n"
  let output := output ++ "# TYPE raftkv_is_leader gauge\n"
  let output := output ++ ("raftkv_is_leader\x7bnode=\"" ++ toString nodeId ++ "\"\x7d " ++
    toString (if state.role = .leader then 1 else 0) ++ "\n")
  match state.leaderId with
  | some leaderId =>
      let output := output ++ "# HELP raftkv_known_leader The node ID of the known leader\n"
      let output := output ++ "# TYPE raftkv_known_leader gauge\n"
      output ++ ("raftkv_known_leader\x7bnode=\"" ++ toString nodeId ++ "\"\x7d " ++
        toString leaderId ++ "\n")
  | none => output

/-- The page around the gauges. -/
def metricsResponse (body : String) : String :=
  "HTTP/1.1 200 OK\r\nContent-Type: text/plain; charset=utf-8\r\nContent-Length: " ++
    toString body.utf8ByteSize ++ "\r\n\r\n" ++ body

/-- What a scraper gets of a node. -/
def scrape (node : ClusterNode) (nodeId : Nat) : List UInt8 :=
  bytesOf (metricsResponse (generateMetrics node nodeId))

/-! ## The reader of a scraper -/

/-- The length that a header line tells of the body. -/
def contentLength (line : List UInt8) : Option Nat :=
  if (bytesOf "Content-Length: ").isPrefixOf line then
    (readNumber (line.drop (bytesOf "Content-Length: ").length)).map Int.toNat
  else none

/-- The header lines up to an empty one, and what is behind it. -/
def readHeaders : Nat -> List UInt8 -> Option (List (List UInt8) × List UInt8)
  | 0, _ => none
  | turns + 1, bytes => do
      let (line, rest) <- takeLine bytes
      if line = [] then some ([], rest)
      else (readHeaders turns rest).map fun read => (line :: read.1, read.2)

/-- The body of a page, and what is behind it. -/
def readPage (bytes : List UInt8) : Option (List UInt8 × List UInt8) := do
  let (status, rest) <- takeLine bytes
  if status ≠ bytesOf "HTTP/1.1 200 OK" then none
  else do
    let (headers, behind) <- readHeaders rest.length rest
    let length <- headers.findSome? contentLength
    if behind.length < length then none else some (behind.take length, behind.drop length)

/-- The families on a page that is nothing but its body. -/
def readScrape (bytes : List UInt8) : Option (List Family) := do
  let (body, rest) <- readPage bytes
  if rest = [] then readFamilies body else none

/-- The value of the gauge with the name. -/
def gauge (name : String) (shown : List Family) : Option Nat := do
  let family <- shown.find? fun family => family.sample.name = name
  parseDigits family.sample.value.toList

/-! ## The families of a node -/

/-- The gauge of a node, with a further label or without. -/
def nodeGauge (nodeId : Nat) (name help : String) (more : List (String × String)) (value : Nat) :
    Family :=
  ⟨help, "gauge", ⟨name, ("node", toString nodeId) :: more, toString value⟩⟩

/-- What there is to be shown of a node. -/
def metricFamilies (state : RaftState) (nodeId : Nat) : List Family :=
  [nodeGauge nodeId "raftkv_current_term" "The current Raft term" [] state.currentTerm,
   nodeGauge nodeId "raftkv_role" "Current role (0=follower, 1=candidate, 2=leader)"
     [("role", roleStr state.role)] (roleNum state.role),
   nodeGauge nodeId "raftkv_commit_index" "The highest committed log index" [] state.commitIndex,
   nodeGauge nodeId "raftkv_last_applied" "The highest applied log index" [] state.lastApplied,
   nodeGauge nodeId "raftkv_log_length" "Number of entries in the Raft log" []
     state.log.lastIndex,
   nodeGauge nodeId "raftkv_is_leader" "Whether this node is the leader (1=yes, 0=no)" []
     (if state.role = .leader then 1 else 0)] ++
  (state.leaderId.map fun leaderId =>
    nodeGauge nodeId "raftkv_known_leader" "The node ID of the known leader" [] leaderId).toList

section Text

variable {node : ClusterNode} {nodeId : Nat}

/-- The text of a gauge. -/
theorem exposition_gauge (name help : String) (value : Nat) :
    exposition [nodeGauge nodeId name help [] value] =
      ("# HELP " ++ name ++ " " ++ help ++ "\n") ++ (("# TYPE " ++ name ++ " gauge\n") ++
        ((name ++ "\x7bnode=\"") ++ (toString nodeId ++ ("\"\x7d " ++ (toString value ++ "\n"))))) := by
  apply String.toList_inj.mp
  simp [exposition, nodeGauge, Family.items, Item.text, Sample.text, labelText]

/-- The text of the gauge that has the role as a label. -/
theorem exposition_role (name help role : String) (value : Nat) :
    exposition [nodeGauge nodeId name help [("role", role)] value] =
      ("# HELP " ++ name ++ " " ++ help ++ "\n") ++ (("# TYPE " ++ name ++ " gauge\n") ++
        ((name ++ "\x7bnode=\"") ++ (toString nodeId ++ ("\",role=\"" ++ (role ++
          ("\"\x7d " ++ (toString value ++ "\n"))))))) := by
  apply String.toList_inj.mp
  simp [exposition, nodeGauge, Family.items, Item.text, Sample.text, labelText]

theorem exposition_cons_cons (first second : Family) (shown : List Family) :
    exposition (first :: second :: shown) = exposition [first] ++ exposition (second :: shown) :=
  exposition_append [first] (second :: shown)

theorem generateMetrics_eq (node : ClusterNode) (nodeId : Nat) :
    generateMetrics node nodeId = exposition (metricFamilies node.raft.state nodeId) := by
  cases known : node.raft.state.leaderId with
  | none =>
      simp only [metricFamilies, known, Option.map_none, Option.toList_none, List.append_nil,
        exposition_cons_cons, exposition_gauge, exposition_role, String.reduceAppend]
      simp only [generateMetrics, known, String.append_assoc, String.empty_append]
  | some leaderId =>
      simp only [metricFamilies, known, Option.map_some, Option.toList_some, List.cons_append,
        List.nil_append, exposition_cons_cons, exposition_gauge, exposition_role,
        String.reduceAppend]
      simp only [generateMetrics, known, String.append_assoc, String.empty_append]

/-! ## Reading a scrape -/

theorem words_toString (value : Nat) : (toString value).toList.all isWord := by
  refine List.all_eq_true.mpr fun character listed => ?_
  change character ∈ value.repr.toList at listed
  rw [Nat.toList_repr] at listed
  have digit := Nat.isDigit_of_mem_toDigits (by decide) (by decide) listed
  unfold isWord Char.isAlphanum
  rw [digit, Bool.or_true, Bool.true_or]

theorem nodeGauge_plain {name help : String} {more : List (String × String)} {value : Nat}
    (named : name.toList.all isWord) (helped : OneLine help.toList)
    (labeled : forall label, label ∈ more -> label.1.toList.all isWord ∧ label.2.toList.all isWord) :
    (nodeGauge nodeId name help more value).Plain where
  name := named
  labels label listed := by
    rcases List.mem_cons.mp listed with rfl | further
    · exact ⟨show "node".toList.all isWord = true by decide, words_toString nodeId⟩
    · exact labeled label further
  labeled := List.cons_ne_nil _ _
  value := ⟨notMem_of_words (words_toString value) (by decide),
    notMem_of_words (words_toString value) (by decide)⟩
  kind := by change "gauge".toList.all isWord = true; decide
  help := helped

theorem metricFamilies_plain (state : RaftState) {family : Family}
    (listed : family ∈ metricFamilies state nodeId) : family.Plain := by
  have none_ : forall label : String × String, label ∈ [] ->
      label.1.toList.all isWord ∧ label.2.toList.all isWord :=
    fun _ among => (List.not_mem_nil among).elim
  have role : forall label : String × String, label ∈ [("role", roleStr state.role)] ->
      label.1.toList.all isWord ∧ label.2.toList.all isWord := by
    intro label among
    rw [List.mem_singleton.mp among]
    cases state.role <;> decide
  rcases List.mem_append.mp listed with always | sometimes
  · simp only [List.mem_cons, List.not_mem_nil, or_false] at always
    rcases always with rfl | rfl | rfl | rfl | rfl | rfl
    · exact nodeGauge_plain (by decide) (by decide) none_
    · exact nodeGauge_plain (by decide) (by decide) role
    · exact nodeGauge_plain (by decide) (by decide) none_
    · exact nodeGauge_plain (by decide) (by decide) none_
    · exact nodeGauge_plain (by decide) (by decide) none_
    · exact nodeGauge_plain (by decide) (by decide) none_
  · rcases Option.map_eq_some_iff.mp (Option.mem_toList.mp sometimes) with ⟨leaderId, _, rfl⟩
    exact nodeGauge_plain (by decide) (by decide) none_

/-- The gauges are read back from their text. -/
theorem readFamilies_generateMetrics (node : ClusterNode) (nodeId : Nat) :
    readFamilies (bytesOf (generateMetrics node nodeId)) =
      some (metricFamilies node.raft.state nodeId) := by
  rw [generateMetrics_eq]
  exact readFamilies_exposition fun _ => metricFamilies_plain _

theorem contentLength_line (length : Nat) :
    contentLength (bytesOf ("Content-Length: " ++ toString length)) = some length := by
  unfold contentLength
  rw [bytesOf_append, if_pos (List.isPrefixOf_iff_prefix.mpr (List.prefix_append _ _)),
    List.drop_left, show toString length = toString (length : Int) from rfl, readNumber_bytesOf]
  rfl

/-- A header line is read up to its line end. -/
theorem readHeaders_cons {line : List UInt8} (single : 10 ∉ line) (filled : line ≠ [])
    (turns : Nat) (rest : List UInt8) : readHeaders (turns + 1) (line ++ 13 :: 10 :: rest) =
      (readHeaders turns rest).map fun read => (line :: read.1, read.2) := by
  rw [readHeaders, takeLine_append single]
  exact if_neg filled

/-- The page tells exactly where its body ends. -/
theorem readPage_metricsResponse (body : String) :
    readPage (bytesOf (metricsResponse body)) = some (bytesOf body, []) := by
  have page : bytesOf (metricsResponse body) = bytesOf "HTTP/1.1 200 OK" ++ 13 :: 10 ::
      (bytesOf "Content-Type: text/plain; charset=utf-8" ++ 13 :: 10 ::
        (bytesOf ("Content-Length: " ++ toString body.utf8ByteSize) ++ 13 :: 10 ::
          13 :: 10 :: bytesOf body)) := by
    have front : "HTTP/1.1 200 OK\r\nContent-Type: text/plain; charset=utf-8\r\nContent-Length: " =
        "HTTP/1.1 200 OK" ++ lineEnd ++ "Content-Type: text/plain; charset=utf-8" ++ lineEnd ++
          "Content-Length: " := by
      unfold lineEnd
      simp only [String.reduceAppend]
    have ending : "\r\n\r\n" = lineEnd ++ lineEnd := by
      unfold lineEnd
      simp only [String.reduceAppend]
    unfold metricsResponse
    rw [front, ending]
    simp only [bytesOf_append, bytesOf_lineEnd, List.append_assoc, List.cons_append,
      List.nil_append]
  have single : 10 ∉ bytesOf ("Content-Length: " ++ toString body.utf8ByteSize) := by
    refine feed_notMem_bytesOf (feed_notMem_append (by decide) ?_)
    exact feed_notMem_repr _
  have filled : bytesOf ("Content-Length: " ++ toString body.utf8ByteSize) ≠ [] := by
    rw [bytesOf_append]
    exact List.append_ne_nil_of_left_ne_nil (by decide) _
  have headers : forall turns, readHeaders (turns + 3)
      (bytesOf "Content-Type: text/plain; charset=utf-8" ++ 13 :: 10 ::
        (bytesOf ("Content-Length: " ++ toString body.utf8ByteSize) ++ 13 :: 10 ::
          13 :: 10 :: bytesOf body)) =
      some ([bytesOf "Content-Type: text/plain; charset=utf-8",
        bytesOf ("Content-Length: " ++ toString body.utf8ByteSize)], bytesOf body) := by
    intro turns
    rw [readHeaders_cons (by decide) (by decide), readHeaders_cons single filled]
    rfl
  have length : [bytesOf "Content-Type: text/plain; charset=utf-8",
      bytesOf ("Content-Length: " ++ toString body.utf8ByteSize)].findSome? contentLength =
        some (bytesOf body).length := by
    rw [List.findSome?_cons, show contentLength (bytesOf "Content-Type: text/plain; charset=utf-8") =
      none by decide, List.findSome?_cons, contentLength_line]
    rfl
  have turns : Exists fun turns => (bytesOf "Content-Type: text/plain; charset=utf-8" ++ 13 :: 10 ::
      (bytesOf ("Content-Length: " ++ toString body.utf8ByteSize) ++ 13 :: 10 ::
        13 :: 10 :: bytesOf body)).length = turns + 3 := by
    refine ⟨_ - 3, (Nat.sub_add_cancel ?_).symm⟩
    simp only [List.length_append, List.length_cons]
    omega
  rcases turns with ⟨turns, enough⟩
  unfold readPage
  rw [page, takeLine_append (by decide)]
  simp only [Option.bind_eq_bind, Option.bind_some, ne_eq, not_true_eq_false, if_false, enough,
    headers, length, Nat.lt_irrefl, List.take_length, List.drop_length]

theorem readScrape_scrape (node : ClusterNode) (nodeId : Nat) :
    readScrape (scrape node nodeId) = some (metricFamilies node.raft.state nodeId) := by
  unfold readScrape scrape
  rw [readPage_metricsResponse]
  exact readFamilies_generateMetrics node nodeId

/-! ## Scrapes that are cut off -/

/-- More bytes behind a line end do not change the line. -/
theorem takeLine_extend {bytes line rest : List UInt8} (taken : takeLine bytes = some (line, rest))
    (more : List UInt8) : takeLine (bytes ++ more) = some (line, rest ++ more) := by
  fun_induction takeLine bytes generalizing line with
  | case1 => cases taken
  | case2 behind =>
      cases taken
      rfl
  | case3 byte behind apart inductionHypothesis =>
      rcases Option.map_eq_some_iff.mp taken with ⟨⟨front, others⟩, later, equal⟩
      cases equal
      have extended := inductionHypothesis later
      rw [List.cons_append, takeLine, extended]
      · rfl
      · -- what was no line end has not become one, since a byte follows already
        intro left marks feeds
        cases behind with
        | nil => cases later
        | cons first others =>
            rw [List.cons_append] at feeds
            exact apart others marks (by rw [(List.cons.inj feeds).1])

/-- More bytes behind the headers do not change them. -/
theorem readHeaders_extend {turns : Nat} {bytes rest : List UInt8} {lines : List (List UInt8)}
    (read : readHeaders turns bytes = some (lines, rest)) (further : Nat) (more : List UInt8) :
    readHeaders (turns + further) (bytes ++ more) = some (lines, rest ++ more) := by
  induction turns generalizing bytes lines with
  | zero => cases read
  | succ turns inductionHypothesis =>
      rw [Nat.succ_add]
      unfold readHeaders at read ⊢
      rcases Option.bind_eq_some_iff.mp read with ⟨⟨line, behind⟩, taken, remaining⟩
      rw [takeLine_extend taken more]
      simp only [Option.bind_eq_bind, Option.bind_some] at remaining ⊢
      by_cases empty : line = []
      · rw [if_pos empty] at remaining ⊢
        cases remaining
        rfl
      · rw [if_neg empty] at remaining ⊢
        rcases Option.map_eq_some_iff.mp remaining with ⟨⟨others, left⟩, later, equal⟩
        cases equal
        rw [inductionHypothesis later]
        rfl

/-- More bytes behind a page do not change it. -/
theorem readPage_extend {bytes body rest : List UInt8} (read : readPage bytes = some (body, rest))
    (more : List UInt8) : readPage (bytes ++ more) = some (body, rest ++ more) := by
  unfold readPage at read ⊢
  rcases Option.bind_eq_some_iff.mp read with ⟨⟨status, behind⟩, taken, page⟩
  rw [takeLine_extend taken more]
  simp only [Option.bind_eq_bind, Option.bind_some] at page ⊢
  by_cases refused : status ≠ bytesOf "HTTP/1.1 200 OK"
  · rw [if_pos refused] at page
    cases page
  · rw [if_neg refused] at page ⊢
    rcases Option.bind_eq_some_iff.mp page with ⟨⟨headers, left⟩, headed, whole⟩
    rw [List.length_append, readHeaders_extend headed]
    simp only [Option.bind_some] at whole ⊢
    rcases Option.bind_eq_some_iff.mp whole with ⟨length, told, given⟩
    rw [told]
    simp only [Option.bind_some] at given ⊢
    by_cases short : left.length < length
    · rw [if_pos short] at given
      cases given
    · have enough := Nat.le_of_not_lt short
      rw [if_neg short] at given
      cases given
      rw [if_neg, List.take_append_of_le_length enough, List.drop_append_of_le_length enough]
      rw [List.length_append]
      omega

/-- **A scrape is whole or refused.**  The reader gets the state of the node from the whole
answer, and nothing from an answer that is cut off anywhere. -/
theorem scrape_whole (node : ClusterNode) (nodeId : Nat) :
    readScrape (scrape node nodeId) = some (metricFamilies node.raft.state nodeId) ∧
    forall part, part <+: scrape node nodeId -> part ≠ scrape node nodeId ->
      readScrape part = none := by
  refine ⟨readScrape_scrape node nodeId, ?_⟩
  rintro part ⟨more, whole⟩ proper
  unfold readScrape
  cases read : readPage part with
  | none => rfl
  | some page =>
      rcases page with ⟨body, rest⟩
      have extended := readPage_extend read more
      rw [whole, scrape, readPage_metricsResponse] at extended
      have nothing := (Prod.mk.inj (Option.some.inj extended)).2
      have missing := (List.append_eq_nil_iff.mp nothing.symm).2
      rw [missing, List.append_nil] at whole
      exact absurd whole proper

end Text

/-! ## What scrapes show over a run -/

/-- What a scraper gets of a server. -/
def Configuration.scraped (config : Configuration) (id : Nat) : List UInt8 :=
  scrape (config.servers id).node id

/-- What an earlier scrape of one server and a later one of another tell in common.  The
term that a server shows never falls.  Where both show a leader of the same term, they
show the same server, and its log has not become shorter. -/
structure Consistent (left right : Nat) (first second : List Family) : Prop where
  forward : left = right -> Exists fun term => Exists fun later =>
    gauge "raftkv_current_term" first = some term ∧
    gauge "raftkv_current_term" second = some later ∧ term ≤ later
  single : gauge "raftkv_is_leader" first = some 1 -> gauge "raftkv_is_leader" second = some 1 ->
    gauge "raftkv_current_term" first = gauge "raftkv_current_term" second ->
    left = right ∧ Exists fun length => Exists fun later =>
      gauge "raftkv_log_length" first = some length ∧
      gauge "raftkv_log_length" second = some later ∧ length ≤ later

section Runs

variable {peers : List Nat} {history : List Transition} {earlier final : Configuration}
  {left right : Nat} {state : RaftState} {first second : List Family}

theorem parseDigits_toString (value : Nat) : parseDigits (toString value).toList = some value := by
  change parseDigits value.repr.toList = some value
  rw [Nat.toList_repr]
  exact parseDigits_toDigits value

theorem gauge_currentTerm (state : RaftState) (nodeId : Nat) :
    gauge "raftkv_current_term" (metricFamilies state nodeId) = some state.currentTerm :=
  parseDigits_toString state.currentTerm

theorem gauge_isLeader (state : RaftState) (nodeId : Nat) :
    gauge "raftkv_is_leader" (metricFamilies state nodeId) =
      some (if state.role = .leader then 1 else 0) :=
  parseDigits_toString (if state.role = .leader then 1 else 0)

theorem gauge_logLength (state : RaftState) (nodeId : Nat) :
    gauge "raftkv_log_length" (metricFamilies state nodeId) = some state.log.lastIndex :=
  parseDigits_toString state.log.lastIndex

theorem leads_of_gauge {nodeId : Nat}
    (shown : gauge "raftkv_is_leader" (metricFamilies state nodeId) = some 1) :
    state.role = .leader := by
  rw [gauge_isLeader] at shown
  by_contra follows
  rw [if_neg follows] at shown
  cases shown

/-- **Scrapes do not contradict each other.**  This holds of any two scrapes that are taken
during a run of the servers, whatever is lost or restarted in between. -/
theorem scrapes_consistent (distinct : peers.Nodup) (run : Run peers history final)
    (visits : Visits history final earlier) (leftMember : left ∈ peers) (rightMember : right ∈ peers)
    (readFirst : readScrape (earlier.scraped left) = some first)
    (readSecond : readScrape (final.scraped right) = some second) :
    Consistent left right first second := by
  rcases run.shadows with ⟨past, image, shadows⟩
  rcases shadows.visits earlier visits with ⟨seen, visited, same⟩
  rcases Cluster.Run.traces distinct shadows.run with ⟨ledger, traces⟩
  rcases traces.moments seen visited with ⟨before, sound, simulates, grows⟩
  have represents := simulates.nodes left leftMember
  have represents' := traces.simulates.nodes right rightMember
  rw [show seen.nodes left = (earlier.servers left).node.raft from congrFun same left]
    at represents
  rw [show image.nodes right = (final.servers right).node.raft from
    congrFun shadows.projects.nodes right] at represents'
  cases (readScrape_scrape _ left).symm.trans readFirst
  cases (readScrape_scrape _ right).symm.trans readSecond
  refine ⟨fun here => ⟨_, _, gauge_currentTerm _ left, gauge_currentTerm _ right, ?_⟩, ?_⟩
  · rw [represents.term_eq, represents'.term_eq, ← here]
    exact grows.term_le left
  · intro shows_ showsToo sameTerm
    rcases represents.reign_of_leader sound (leads_of_gauge shows_) with ⟨r, reigns, own, log⟩
    rcases represents'.reign_of_leader traces.sound (leads_of_gauge showsToo) with
      ⟨r', reigns', own', log'⟩
    rcases grows.reign reigns with ⟨last, present, leader, _, longer⟩
    rw [gauge_currentTerm, gauge_currentTerm] at sameTerm
    rw [Option.some.inj sameTerm, reigns'] at present
    cases present
    refine ⟨own.symm.trans (leader.symm.trans own'), _, _, gauge_logLength _ left,
      gauge_logLength _ right, ?_⟩
    rw [RaftLog.lastIndex_eq_length_body, RaftLog.lastIndex_eq_length_body, represents.log_eq,
      represents'.log_eq, RaftLog.body_mk, RaftLog.body_mk, log, log']
    exact longer.length_le

set_option maxRecDepth 100000 in
/-- Node 1 is seen to lead term 1 with one write in its log, and later with three. -/
theorem scrapes_consistent_threeWrites :
    Exists fun history => Exists fun final => Exists fun earlier =>
      Run [1, 2, 3] history final ∧ Visits history final earlier ∧
      Exists fun first => Exists fun second =>
        gauge "raftkv_log_length" first = some 1 ∧ gauge "raftkv_log_length" second = some 3 ∧
        Consistent 1 1 first second := by
  have checked : (execute [1, 2, 3] threeWrites).any (fun result =>
      decide ((result.2.raft 1).state.log.lastIndex = 3 ∧ Exists fun transition =>
        transition ∈ result.1 ∧ (transition.source.raft 1).state.log.lastIndex = 1)) = true := by
    decide +kernel
  rcases exists_run checked with ⟨history, final, run, holds⟩
  rcases of_decide_eq_true holds with ⟨three, transition, listed, one⟩
  have visits : Visits history final transition.source := Or.inr ⟨transition, listed, rfl⟩
  refine ⟨history, final, transition.source, run, visits, _, _, ?_, ?_,
    scrapes_consistent (by decide) run visits (by decide) (by decide) (readScrape_scrape _ 1)
      (readScrape_scrape _ 1)⟩
  · rw [gauge_logLength]
    exact congrArg some one
  · rw [gauge_logLength]
    exact congrArg some three

end Runs
end Service
end RaftStore
