import RaftStore.Raft.Log
import RaftStore.Storage.Wal

namespace RaftStore
namespace Network

open Raft Storage

/-!
# Reading requests

This file embeds the loop of `Server::handle_client` in `network/server.rs` that
reads the requests of a client.  The stream is a list of lines; a line may fail to
be read, or not to be a text.

A request announces how many arguments follow, and each argument announces its
length in bytes.  The loop reads lines and does not look at the lengths, so that an
argument ends where its first line ends.
-/

/-! ## The loop -/

/-- A line of the stream, or the error of reading it. -/
abbrev Line := Except IoError String

/-- `str::parse` for `usize`: digits, with at most one plus sign before them. -/
def parseUsize (text : List Char) : Option Nat :=
  let digits :=
    match text with
    | '+' :: rest => rest
    | _ => text
  let value := Nat.ofDigitChars 10 digits 0
  if digits ≠ [] ∧ digits.all Char.isDigit ∧ value < wordSize then some value else none

/-- Read so many arguments, each a line with a length and a line with the argument.
The lines that are left are those behind the last line that was looked at. -/
def readArgs : Nat -> List Line -> Option (List String) × List Line
  | 0, rest => (some [], rest)
  | _ + 1, [] => (none, [])
  | _ + 1, .error _ :: rest => (none, rest)
  | count + 1, .ok length :: rest =>
      if length.toList.head? ≠ some '$' then (none, rest)
      else
        match rest with
        | [] => (none, [])
        | .error _ :: rest => (none, rest)
        | .ok data :: rest =>
            let (args, rest) := readArgs count rest
            (args.map (data :: ·), rest)

/-- What one turn of the loop comes to: an error for the client, or the arguments of
a request. -/
inductive Frame where
  | refused (text : String)
  | request (args : List String)
  deriving DecidableEq, Repr

/-- One turn of the loop.  The loop ends where no line can be read. -/
def readFrame : List Line -> Option (Frame × List Line)
  | [] => none
  | .error _ :: _ => none
  | .ok first :: rest =>
      match first.toList with
      | '*' :: count =>
          match parseUsize count with
          | none => some (.refused "invalid argument count", rest)
          | some numArgs =>
              match readArgs numArgs rest with
              | (some (arg :: args), rest) => some (.request (arg :: args), rest)
              | (_, rest) => some (.refused "protocol parse error", rest)
      | _ => some (.refused "invalid protocol", rest)

/-- At most so many turns of the loop. -/
def readFramesWithin : Nat -> List Line -> List Frame
  | 0, _ => []
  | turns + 1, stream =>
      match readFrame stream with
      | none => []
      | some (frame, rest) => frame :: readFramesWithin turns rest

/-- The whole loop.  Each turn takes a line at least. -/
def readFrames (stream : List Line) : List Frame :=
  readFramesWithin stream.length stream

/-- The argument lists that the loop collects. -/
def collected (frames : List Frame) : List (List String) :=
  frames.filterMap fun frame =>
    match frame with
    | .refused _ => none
    | .request args => some args

/-- What `BufRead::lines` makes of the bytes of a text. -/
def feed (text : String) : List Line :=
  (lines text.toList).map fun line => .ok (String.ofList line)

/-! ## Requests on the wire -/

/-- A request of a client: a vector of arguments that is not empty. -/
structure Request where
  args : List String
  nonempty : args ≠ []
  fits : args.length ≤ vecCapacity

/-- The end of a line on the wire. -/
def lineEnd : String := "\r\n"

/-- The bulk strings of arguments. -/
def encodeArgs : List String -> String
  | [] => ""
  | arg :: rest =>
      "$" ++ toString arg.utf8ByteSize ++ lineEnd ++ (arg ++ lineEnd ++ encodeArgs rest)

/-- The array of bulk strings that a client sends. -/
def Request.encode (request : Request) : String :=
  "*" ++ toString request.args.length ++ lineEnd ++ encodeArgs request.args

/-- Requests one after the other. -/
def encodeAll : List Request -> String
  | [] => ""
  | request :: rest => request.encode ++ encodeAll rest

/-! ## Turns of the loop -/

section Loop

/-- Arguments were read from a stream: what is left is its end, and the arguments are
lines of it. -/
structure ReadFrom (stream : List Line) (result : Option (List String) × List Line) : Prop where
  left : result.2 <:+ stream
  lines : forall args, result.1 = some args -> forall arg, arg ∈ args -> Except.ok arg ∈ stream

theorem readFrom_none {stream rest : List Line} (left : rest <:+ stream) :
    ReadFrom stream (none, rest) :=
  ⟨left, fun _ impossible => nomatch impossible⟩

theorem readFrom_readArgs (count : Nat) (stream : List Line) :
    ReadFrom stream (readArgs count stream) := by
  fun_induction readArgs count stream with
  | case1 rest =>
      refine ⟨List.suffix_rfl, fun args equal => ?_⟩
      cases equal
      exact fun arg listed => (List.not_mem_nil listed).elim
  | case2 => exact readFrom_none List.suffix_rfl
  | case3 count error rest => exact readFrom_none (List.suffix_cons _ _)
  | case4 count length rest other => exact readFrom_none (List.suffix_cons _ _)
  | case5 count length => exact readFrom_none (List.suffix_cons _ _)
  | case6 count length marked error rest =>
      exact readFrom_none ((List.suffix_cons _ _).trans (List.suffix_cons _ _))
  | case7 count length marked data stream args rest read inductionHypothesis =>
      rw [read] at inductionHypothesis
      have inside : stream <:+ .ok length :: .ok data :: stream :=
        (List.suffix_cons _ _).trans (List.suffix_cons _ _)
      refine ⟨inductionHypothesis.left.trans inside, fun all equal arg listed => ?_⟩
      rcases Option.map_eq_some_iff.mp equal with ⟨others, found, rfl⟩
      rcases List.mem_cons.mp listed with rfl | behind
      · exact List.mem_cons_of_mem _ List.mem_cons_self
      · exact inside.subset (inductionHypothesis.lines others found arg behind)

/-- A turn takes a line and perhaps others behind it. -/
theorem readFrame_spec {stream rest : List Line} {frame : Frame}
    (turned : readFrame stream = some (frame, rest)) :
    Exists fun first => Exists fun behind => stream = .ok first :: behind ∧ rest <:+ behind ∧
      forall args, frame = .request args -> forall arg, arg ∈ args -> Except.ok arg ∈ behind := by
  rcases stream with _ | ⟨_ | first, behind⟩
  · cases turned
  · cases turned
  · refine ⟨first, behind, rfl, ?_⟩
    have refuses : forall {text : String} {others : List Line}, others <:+ behind ->
        some (Frame.refused text, others) = some (frame, rest) -> rest <:+ behind ∧
          forall args, frame = .request args -> forall arg, arg ∈ args -> Except.ok arg ∈ behind := by
      intro text others left equal
      cases equal
      exact ⟨left, fun _ impossible => nomatch impossible⟩
    simp only [readFrame] at turned
    split at turned
    · split at turned
      · exact refuses List.suffix_rfl turned
      · next numArgs _ =>
          have reads := readFrom_readArgs numArgs behind
          split at turned
          · next arg args others read =>
              rw [read] at reads
              cases turned
              refine ⟨reads.left, fun all equal => ?_⟩
              cases equal
              exact reads.lines _ rfl
          · next result others _ read =>
              rw [read] at reads
              exact refuses reads.left turned
    · exact refuses List.suffix_rfl turned

/-- A turn more than there are lines makes no difference. -/
theorem readFramesWithin_congr {turns more : Nat} {stream : List Line}
    (enough : stream.length ≤ turns) (enoughToo : stream.length ≤ more) :
    readFramesWithin turns stream = readFramesWithin more stream := by
  induction turns generalizing more stream with
  | zero =>
      have empty : stream = [] := List.length_eq_zero_iff.mp (Nat.le_zero.mp enough)
      subst empty
      cases more <;> rfl
  | succ turns inductionHypothesis =>
      cases more with
      | zero =>
          have empty : stream = [] := List.length_eq_zero_iff.mp (Nat.le_zero.mp enoughToo)
          subst empty
          rfl
      | succ more =>
          simp only [readFramesWithin]
          cases turned : readFrame stream with
          | none => rfl
          | some result =>
              rcases readFrame_spec turned with ⟨first, behind, rfl, left, _⟩
              have shorter := left.length_le
              rw [List.length_cons] at enough enoughToo
              exact congrArg (List.cons result.1) (inductionHypothesis (by omega) (by omega))

/-- The loop goes on after a turn. -/
theorem readFrames_of_readFrame {stream rest : List Line} {frame : Frame}
    (turned : readFrame stream = some (frame, rest)) :
    readFrames stream = frame :: readFrames rest := by
  rcases readFrame_spec turned with ⟨first, behind, rfl, left, _⟩
  have shorter := left.length_le
  unfold readFrames
  rw [List.length_cons, readFramesWithin, turned]
  exact congrArg (List.cons frame) (readFramesWithin_congr shorter (Nat.le_refl _))

/-- Everything that is collected is a line of the stream. -/
theorem mem_collected {turns : Nat} {stream : List Line} {args : List String}
    (found : args ∈ collected (readFramesWithin turns stream)) {arg : String} (listed : arg ∈ args) :
    Except.ok arg ∈ stream := by
  induction turns generalizing stream with
  | zero => exact (List.not_mem_nil found).elim
  | succ turns inductionHypothesis =>
      simp only [readFramesWithin] at found
      cases turned : readFrame stream with
      | none =>
          rw [turned] at found
          exact (List.not_mem_nil found).elim
      | some result =>
          rcases result with ⟨frame, rest⟩
          rw [turned] at found
          rcases readFrame_spec turned with ⟨first, behind, rfl, left, lines⟩
          rcases List.mem_filterMap.mp found with ⟨other, place, same⟩
          rcases List.mem_cons.mp place with rfl | later
          · cases other with
            | refused text => cases same
            | request all =>
                cases same
                exact List.mem_cons_of_mem _ (lines args rfl arg listed)
          · have inside := inductionHypothesis (List.mem_filterMap.mpr ⟨other, later, same⟩)
            exact List.mem_cons_of_mem _ (left.subset inside)

end Loop

/-! ## Lines -/

section Lines

/-- No line of a text has a line feed. -/
theorem feed_notMem {text line : String} (listed : Except.ok line ∈ feed text) :
    '\n' ∉ line.toList := by
  rcases List.mem_map.mp listed with ⟨characters, inside, equal⟩
  cases equal
  rw [String.toList_ofList]
  exact feed_notMem_linesOf (fun _ among => (of_mem_splitOn among).1) inside

/-- A text without line feeds in front of a line end is a line. -/
theorem feed_line {line : String} (single : '\n' ∉ line.toList) (rest : String) :
    feed (line ++ lineEnd ++ rest) = .ok line :: feed rest := by
  have characters : (line ++ lineEnd ++ rest).toList =
      (line.toList ++ ['\r']) ++ '\n' :: rest.toList := by
    simp [lineEnd]
  have whole : '\n' ∉ line.toList ++ ['\r'] := by
    simp [single]
  have stripped : chompReturn (line.toList ++ ['\r']) = line.toList := by
    unfold chompReturn
    rw [if_pos List.getLast?_concat, List.dropLast_concat]
  unfold feed
  rw [characters, lines_append_feed, splitOn_of_notMem whole, List.map_singleton, stripped,
    List.singleton_append, List.map_cons, String.ofList_toList]

theorem toList_toString (value : Nat) : (toString value).toList = Nat.toDigits 10 value := by
  rw [Nat.toString_eq_repr, Nat.toList_repr]

theorem isDigit_of_mem_toDigits {value : Nat} {character : Char}
    (listed : character ∈ Nat.toDigits 10 value) : character.isDigit :=
  Nat.isDigit_of_mem_toDigits (by decide) (by decide) listed

/-- A number is read back from its digits. -/
theorem parseUsize_toDigits {value : Nat} (fits : value < wordSize) :
    parseUsize (Nat.toDigits 10 value) = some value := by
  have unsigned : (match Nat.toDigits 10 value with
      | '+' :: rest => rest
      | _ => Nat.toDigits 10 value) = Nat.toDigits 10 value := by
    split
    · next rest begins =>
        have digit : '+'.isDigit := isDigit_of_mem_toDigits (by rw [begins]; exact List.mem_cons_self)
        cases digit
    · rfl
  unfold parseUsize
  simp only [unsigned, Nat.ofDigitChars_ten_toDigits]
  rw [if_pos ⟨Nat.toDigits_ne_nil, List.all_eq_true.mpr fun _ => isDigit_of_mem_toDigits, fits⟩]

/-- A number with a mark in front of it is a line. -/
theorem feed_number {mark : String} (marked : '\n' ∉ mark.toList) (value : Nat) (rest : String) :
    feed (mark ++ toString value ++ lineEnd ++ rest) = .ok (mark ++ toString value) :: feed rest := by
  apply feed_line
  rw [String.toList_append, toList_toString]
  intro listed
  rcases List.mem_append.mp listed with before | digit
  · exact marked before
  · cases isDigit_of_mem_toDigits digit

end Lines

/-! ## Whole requests -/

section Requests

/-- Arguments that are lines are read back. -/
theorem readArgs_encodeArgs {args : List String}
    (single : forall arg, arg ∈ args -> '\n' ∉ arg.toList) (rest : String) :
    readArgs args.length (feed (encodeArgs args ++ rest)) = (some args, feed rest) := by
  induction args with
  | nil => rfl
  | cons arg others inductionHypothesis =>
      have later := inductionHypothesis fun other among => single other (List.mem_cons_of_mem _ among)
      have here : feed (encodeArgs (arg :: others) ++ rest) =
          .ok ("$" ++ toString arg.utf8ByteSize) :: .ok arg :: feed (encodeArgs others ++ rest) := by
        rw [encodeArgs, String.append_assoc, feed_number (by decide), String.append_assoc,
          feed_line (single arg List.mem_cons_self)]
      rw [here, List.length_cons, readArgs, if_neg (by simp)]
      simp only [later]
      rfl

/-- A request of arguments that are lines takes one turn. -/
theorem readFrame_encode {request : Request}
    (single : forall arg, arg ∈ request.args -> '\n' ∉ arg.toList) (rest : String) :
    readFrame (feed (request.encode ++ rest)) = some (.request request.args, feed rest) := by
  have fits : request.args.length < wordSize := Nat.lt_of_le_of_lt request.fits (by decide)
  have here : feed (request.encode ++ rest) =
      .ok ("*" ++ toString request.args.length) :: feed (encodeArgs request.args ++ rest) := by
    rw [Request.encode, String.append_assoc, feed_number (by decide)]
  have characters : ("*" ++ toString request.args.length).toList =
      '*' :: Nat.toDigits 10 request.args.length := by
    rw [String.toList_append, toList_toString]
    rfl
  rcases List.exists_cons_of_ne_nil request.nonempty with ⟨arg, args, split⟩
  have read := readArgs_encodeArgs single rest
  rw [here]
  simp only [readFrame, characters, parseUsize_toDigits fits]
  rw [read, split]

/-- Requests of arguments that are lines are read back, without an error between. -/
theorem readFrames_encodeAll {requests : List Request}
    (single : forall request, request ∈ requests -> forall arg, arg ∈ request.args ->
      '\n' ∉ arg.toList) :
    readFrames (feed (encodeAll requests)) = requests.map fun request => .request request.args := by
  induction requests with
  | nil => rfl
  | cons request others inductionHypothesis =>
      have first := readFrame_encode (single request List.mem_cons_self) (encodeAll others)
      rw [encodeAll, readFrames_of_readFrame first, List.map_cons,
        inductionHypothesis fun other among => single other (List.mem_cons_of_mem _ among)]

/-- **Reading requests.**  The loop collects the argument lists of the requests that
a client sends, all of them and nothing else, exactly if no argument has a line
feed. -/
theorem collected_iff (requests : List Request) :
    collected (readFrames (feed (encodeAll requests))) = requests.map Request.args <->
      forall request, request ∈ requests -> forall arg, arg ∈ request.args -> '\n' ∉ arg.toList := by
  constructor
  · intro same request sent arg listed
    have found : request.args ∈ collected (readFrames (feed (encodeAll requests))) := by
      rw [same]
      exact List.mem_map_of_mem sent
    exact feed_notMem (mem_collected found listed)
  · intro single
    rw [readFrames_encodeAll single]
    unfold collected
    rw [List.filterMap_map]
    exact congrFun List.filterMap_eq_map requests

end Requests

set_option maxRecDepth 100000 in
/-- A client sets a value of several lines.  Its first line is set, and the others
are executed as a command. -/
theorem collected_splits :
    ¬ forall requests : List Request,
      collected (readFrames (feed (encodeAll requests))) = requests.map Request.args := by
  intro faithful
  have split : collected (readFrames (feed (encodeAll [⟨["SET", "k",
      "v\r\n*2\r\n$3\r\nDEL\r\n$1\r\nk"], by decide, by decide⟩]))) =
        [["SET", "k", "v"], ["DEL", "k"]] := by
    decide +kernel
  rw [faithful] at split
  exact absurd split (by decide)

end Network
end RaftStore
