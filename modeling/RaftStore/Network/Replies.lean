import RaftStore.Collections.Streams
import RaftStore.Network.Protocol

namespace RaftStore
namespace Network

open Raft Collections Service

/-!
# Replies on the wire

A response is written with a mark for its kind in front and a line end behind.  A
bulk string is preceded by the number of its bytes, so that it may hold line ends
itself; the other texts end at the first line end.  The reader of a client is not
part of the source: what is here is the reader that the protocol prescribes.
-/

/-- Convert a response into the wire format. -/
def Response.serialize : Response -> String
  | .simpleString text => "+" ++ text ++ lineEnd
  | .bulkString text => "$" ++ toString text.utf8ByteSize ++ lineEnd ++ text ++ lineEnd
  | .null => "$-1" ++ lineEnd
  | .error text => "-ERR " ++ text ++ lineEnd
  | .integer value => ":" ++ toString value ++ lineEnd

/-- The text of the response, if it is one that ends with its line, has no line
feed. -/
def Response.OneLine : Response -> Prop
  | .simpleString text => '\n' ∉ text.toList
  | .error text => '\n' ∉ text.toList
  | _ => True

instance : (response : Response) -> Decidable (Response.OneLine response)
  | .simpleString _ => inferInstanceAs (Decidable (¬ _))
  | .error _ => inferInstanceAs (Decidable (¬ _))
  | .bulkString _ => inferInstanceAs (Decidable True)
  | .null => inferInstanceAs (Decidable True)
  | .integer _ => inferInstanceAs (Decidable True)

/-! ## The reader of a client -/

/-- The bytes up to the first line end, and those behind it. -/
def takeLine : List UInt8 -> Option (List UInt8 × List UInt8)
  | [] => none
  | 13 :: 10 :: rest => some ([], rest)
  | byte :: rest => (takeLine rest).map fun result => (byte :: result.1, result.2)

/-- Digits, of which there is one at least. -/
def parseDigits (text : List Char) : Option Nat :=
  if text ≠ [] ∧ text.all Char.isDigit then some (Nat.ofDigitChars 10 text 0) else none

/-- A number with an optional sign. -/
def parseNumber : List Char -> Option Int
  | '-' :: digits => (parseDigits digits).map fun value => -(value : Int)
  | '+' :: digits => (parseDigits digits).map fun value => (value : Int)
  | digits => (parseDigits digits).map fun value => (value : Int)

/-- The number on a line. -/
def readNumber (line : List UInt8) : Option Int := do
  let text <- textOf line
  parseNumber text.toList

/-- So many bytes and a line end. -/
def readBulk (length : Nat) (bytes : List UInt8) : Option (Response × List UInt8) :=
  match bytes.drop length with
  | 13 :: 10 :: rest => (textOf (bytes.take length)).map fun text => (.bulkString text, rest)
  | _ => none

/-- The reply with a mark and a line, and what is behind it. -/
def readBody (mark : UInt8) (line rest : List UInt8) : Option (Response × List UInt8) :=
  match mark with
  | 43 => (textOf line).map fun text => (.simpleString text, rest)
  | 45 => (textOf line).map fun text => (.error text, rest)
  | 58 => (readNumber line).map fun value => (.integer value, rest)
  | 36 => do
      let length <- readNumber line
      if length = -1 then some (.null, rest)
      else if length < 0 then none
      else readBulk length.toNat rest
  | _ => none

/-- One reply, and what is behind it. -/
def readReply : List UInt8 -> Option (Response × List UInt8)
  | [] => none
  | mark :: bytes => do
      let (line, rest) <- takeLine bytes
      readBody mark line rest

/-- All replies of a stream, if they take up all its bytes. -/
def readReplies (bytes : List UInt8) : Option (List Response) := readAll readReply bytes

/-- The reply without the prefix that is added to errors. -/
def Response.withoutPrefix : Response -> Response
  | .error text =>
      match text.toList with
      | 'E' :: 'R' :: 'R' :: ' ' :: rest => .error (String.ofList rest)
      | _ => .error text
  | response => response

/-! ## Lines and numbers -/

section Lines

/-- A line without line feeds ends at its line end. -/
theorem takeLine_append {line : List UInt8} (single : 10 ∉ line) (rest : List UInt8) :
    takeLine (line ++ 13 :: 10 :: rest) = some (line, rest) := by
  induction line with
  | nil => rfl
  | cons byte line inductionHypothesis =>
      have later := inductionHypothesis fun listed => single (List.mem_cons_of_mem _ listed)
      have open_ : forall behind, byte :: (line ++ 13 :: 10 :: rest) ≠ 13 :: 10 :: behind := by
        intro behind same
        cases line with
        | nil => cases same
        | cons next others =>
            have feed : next = 10 := (List.cons.inj (List.cons.inj same).2).1
            exact single (by rw [feed]; exact List.mem_cons_of_mem _ List.mem_cons_self)
      rw [List.cons_append, takeLine, later]
      · rfl
      · intro behind head tail
        exact open_ behind (by rw [head, tail])

theorem parseDigits_toDigits (value : Nat) : parseDigits (Nat.toDigits 10 value) = some value := by
  unfold parseDigits
  rw [if_pos ⟨Nat.toDigits_ne_nil, List.all_eq_true.mpr fun _ => isDigit_of_mem_toDigits⟩,
    Nat.ofDigitChars_ten_toDigits]

theorem parseNumber_toDigits (value : Nat) :
    parseNumber (Nat.toDigits 10 value) = some (value : Int) := by
  have digits : forall character, character ∈ Nat.toDigits 10 value -> character.isDigit :=
    fun _ => isDigit_of_mem_toDigits
  have parsed := parseDigits_toDigits value
  unfold parseNumber
  split
  · next begins =>
      rw [begins] at digits
      cases digits '-' List.mem_cons_self
  · next begins =>
      rw [begins] at digits
      cases digits '+' List.mem_cons_self
  · rw [parsed]
    rfl

/-- A number is read back from its text. -/
theorem parseNumber_toString (value : Int) : parseNumber (toString value).toList = some value := by
  rw [Int.toString_eq_repr]
  cases value with
  | ofNat value =>
      change parseNumber value.repr.toList = _
      rw [Nat.toList_repr]
      exact parseNumber_toDigits value
  | negSucc value =>
      change parseNumber ("-" ++ value.succ.repr).toList = _
      have sign : "-".toList = ['-'] := rfl
      rw [String.toList_append, Nat.toList_repr, sign, List.singleton_append, parseNumber,
        parseDigits_toDigits]
      rfl

theorem readNumber_bytesOf (value : Int) : readNumber (bytesOf (toString value)) = some value := by
  unfold readNumber
  rw [textOf_bytesOf]
  exact parseNumber_toString value

theorem feed_notMem_append {text other : String} (first : '\n' ∉ text.toList)
    (second : '\n' ∉ other.toList) : '\n' ∉ (text ++ other).toList := by
  rw [String.toList_append]
  intro listed
  rcases List.mem_append.mp listed with before | behind
  · exact first before
  · exact second behind

theorem feed_notMem_repr (value : Nat) : '\n' ∉ value.repr.toList := by
  intro listed
  rw [Nat.toList_repr] at listed
  cases isDigit_of_mem_toDigits listed

/-- The text of a number is a line. -/
theorem feed_notMem_toString (value : Int) : '\n' ∉ (toString value).toList := by
  rw [Int.toString_eq_repr]
  cases value with
  | ofNat value => exact feed_notMem_repr value
  | negSucc value => exact feed_notMem_append (by decide) (feed_notMem_repr value.succ)

end Lines

/-! ## Whole replies -/

section Replies

/-- What the reader makes of a response: an error has its prefix. -/
def Response.onWire : Response -> Response
  | .error text => .error ("ERR " ++ text)
  | response => response

theorem withoutPrefix_onWire (response : Response) :
    Response.withoutPrefix (Response.onWire response) = response := by
  cases response with
  | error text =>
      have spelled : ("ERR " ++ text).toList = 'E' :: 'R' :: 'R' :: ' ' :: text.toList := by
        rw [String.toList_append]
        rfl
      simp only [Response.onWire, Response.withoutPrefix, spelled, String.ofList_toList]
  | _ => rfl

theorem bytesOf_lineEnd : bytesOf lineEnd = [13, 10] := by decide

/-- A mark and a line are taken apart. -/
theorem readReply_line {mark : String} {byte : UInt8} (marked : bytesOf mark = [byte])
    {line : String} (single : '\n' ∉ line.toList) (rest : List UInt8) :
    readReply (bytesOf (mark ++ line ++ lineEnd) ++ rest) = readBody byte (bytesOf line) rest := by
  have spelled : bytesOf (mark ++ line ++ lineEnd) ++ rest =
      byte :: (bytesOf line ++ 13 :: 10 :: rest) := by
    rw [bytesOf_append, bytesOf_append, marked, bytesOf_lineEnd]
    simp
  rw [spelled, readReply, takeLine_append (feed_notMem_bytesOf single)]
  rfl

/-- So many bytes as announced are taken, whatever they are. -/
theorem readBulk_bytesOf (text : String) (rest : List UInt8) :
    readBulk text.utf8ByteSize (bytesOf (text ++ lineEnd) ++ rest) = some (.bulkString text, rest) := by
  have spelled : bytesOf (text ++ lineEnd) ++ rest = bytesOf text ++ 13 :: 10 :: rest := by
    rw [bytesOf_append, bytesOf_lineEnd]
    simp
  unfold readBulk
  rw [spelled, ← length_bytesOf, List.drop_left, List.take_left, textOf_bytesOf]
  rfl

/-- A response tells where it ends. -/
theorem readReply_serialize {response : Response} (single : Response.OneLine response)
    (rest : List UInt8) :
    readReply (bytesOf (Response.serialize response) ++ rest) =
      some (Response.onWire response, rest) := by
  cases response with
  | simpleString text =>
      rw [Response.serialize, readReply_line (by decide : bytesOf "+" = [43]) single, readBody,
        textOf_bytesOf]
      rfl
  | bulkString text =>
      have announced : toString text.utf8ByteSize = toString (text.utf8ByteSize : Int) := rfl
      have parts : bytesOf (Response.serialize (.bulkString text)) ++ rest =
          bytesOf ("$" ++ toString (text.utf8ByteSize : Int) ++ lineEnd) ++
            (bytesOf (text ++ lineEnd) ++ rest) := by
        rw [Response.serialize, announced, String.append_assoc, bytesOf_append, List.append_assoc]
      have positive : (text.utf8ByteSize : Int) ≠ -1 := by omega
      have natural : ¬ (text.utf8ByteSize : Int) < 0 := by omega
      rw [parts, readReply_line (by decide : bytesOf "$" = [36]) (feed_notMem_toString _), readBody,
        readNumber_bytesOf]
      simp only [Option.bind_eq_bind, Option.bind_some, if_neg positive, if_neg natural,
        Int.toNat_natCast]
      exact readBulk_bytesOf text rest
  | null =>
      have parts : Response.serialize .null = "$" ++ toString (-1 : Int) ++ lineEnd := by decide
      rw [parts, readReply_line (by decide : bytesOf "$" = [36]) (feed_notMem_toString _), readBody,
        readNumber_bytesOf]
      rfl
  | error text =>
      have parts : Response.serialize (.error text) = "-" ++ ("ERR " ++ text) ++ lineEnd := by
        rw [Response.serialize, ← String.append_assoc]
        rfl
      have whole : '\n' ∉ ("ERR " ++ text).toList := by
        rw [String.toList_append]
        intro listed
        rcases List.mem_append.mp listed with before | behind
        · exact absurd before (by decide)
        · exact single behind
      rw [parts, readReply_line (by decide : bytesOf "-" = [45]) whole, readBody, textOf_bytesOf]
      rfl
  | integer value =>
      rw [Response.serialize, readReply_line (by decide : bytesOf ":" = [58])
        (feed_notMem_toString value), readBody, readNumber_bytesOf]
      rfl

/-- **Replies are uniquely decodable.**  From the bytes of any responses, one behind
the other, a client reads these responses and nothing else, if each text that ends
with its line has no line feed. -/
theorem replies_decodable {responses : List Response}
    (single : forall response, response ∈ responses -> Response.OneLine response) :
    (readReplies (responses.flatMap fun response => bytesOf (Response.serialize response))).map
      (List.map Response.withoutPrefix) = some responses := by
  have visible : forall response, response ∈ responses ->
      bytesOf (Response.serialize response) ≠ [] := by
    intro response listed empty
    have read := readReply_serialize (single response listed) []
    rw [empty] at read
    cases read
  rw [readReplies, readAll_flatMap (fun response listed => readReply_serialize (single response listed))
    visible, Option.map_some, List.map_map]
  congr 1
  exact (List.map_congr_left fun response _ => withoutPrefix_onWire response).trans (List.map_id _)

set_option maxRecDepth 100000 in
/-- A value with line ends and characters of several bytes that looks like other
replies, between an error and a missing value. -/
theorem replies_decodable_disguised :
    (readReplies ([.error "MOVED", .bulkString "é\r\n+OK\r\n$-1", .null, .integer (-3)].flatMap
      fun response => bytesOf (Response.serialize response))).map (List.map Response.withoutPrefix) =
        some [.error "MOVED", .bulkString "é\r\n+OK\r\n$-1", .null, .integer (-3)] :=
  replies_decodable (by decide)

end Replies

/-! ## The answers of a server -/

section Answers

variable {toUppercase : String -> String} {node after : ClusterNode} {response : Response}

theorem moved_oneLine {key : String} (answered : node.moved key = some response) :
    Response.OneLine response := by
  unfold ClusterNode.moved at answered
  split at answered
  · cases answered
  · split at answered
    · cases answered
    · cases answered
      exact feed_notMem_append (by decide) (feed_notMem_repr _)

theorem write_oneLine {command : LogCommand} {ok : Response} (plain : Response.OneLine ok)
    (written : node.write command ok = .ok (after, response)) : Response.OneLine response := by
  unfold ClusterNode.write at written
  split at written
  · cases written
    decide
  · rcases Outcome.bind_eq_ok.mp written with ⟨⟨raft, proposed⟩, _, returned⟩
    cases proposed with
    | none =>
        cases returned
        decide
    | some actions =>
        cases returned
        exact plain

/-- A command whose name, if the answer repeats it, is a line gets an answer of this
kind. -/
theorem handleClientCommand_oneLine {command : Command}
    (named : forall name, command = .unknown name -> '\n' ∉ name.toList)
    (handled : node.handleClientCommand command = .ok (after, response)) :
    Response.OneLine response := by
  have elsewhere : forall {owner : ClusterNode} {key : String} {answer : Response},
      owner.moved key = some answer ->
      (Except.ok (owner, answer) : Outcome (ClusterNode × Response)) = .ok (after, response) ->
      Response.OneLine response := by
    intro owner key answer answered returned
    cases returned
    exact moved_oneLine answered
  cases command with
  | get key =>
      simp only [ClusterNode.handleClientCommand] at handled
      split at handled
      · next answer answered => exact elsewhere answered handled
      · split at handled <;> cases handled <;> exact trivial
  | set key value =>
      simp only [ClusterNode.handleClientCommand] at handled
      split at handled
      · next answer answered => exact elsewhere answered handled
      · exact write_oneLine (by decide) handled
  | del key =>
      simp only [ClusterNode.handleClientCommand] at handled
      split at handled
      · next answer answered => exact elsewhere answered handled
      · exact write_oneLine (by decide) handled
  | ping =>
      cases handled
      decide
  | unknown name =>
      cases handled
      exact feed_notMem_append (feed_notMem_append (by decide) (named name rfl)) (by decide)

/-- The loop's own refusals are such replies as well. -/
theorem refused_oneLine {stream rest : List Line} {text : String}
    (turned : readFrame stream = some (.refused text, rest)) : Response.OneLine (.error text) := by
  rcases stream with _ | ⟨_ | first, behind⟩
  · cases turned
  · cases turned
  · simp only [readFrame] at turned
    split at turned
    · split at turned
      · cases turned
        decide
      · split at turned
        · cases turned
        · cases turned
          decide
    · cases turned
      decide

end Answers
end Network
end RaftStore
