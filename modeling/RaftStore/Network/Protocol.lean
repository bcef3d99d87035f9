import RaftStore.Network.Frames
import RaftStore.Service.Node

namespace RaftStore
namespace Network

open Storage Service

/-!
# From arguments to commands

A request is turned into a command in two places: by `Command::parse` in
`network/protocol.rs`, which gives up at the first thing it does not like, and by
the loop of `Server::handle_client`, which answers with an error and goes on, and
which takes a known name with a wrong number of arguments for an unknown command.

Both make capitals of the command name.  `str::to_uppercase` is a parameter here:
that it is the same function in both places is all that matters.
-/

section Readers

variable (toUppercase : String -> String)

/-! ## The parser -/

/-- The arguments of `Command::parse`, from the lines behind the first one. -/
def parseArgs : Nat -> List String -> Option (List String)
  | 0, _ => some []
  | _ + 1, [] => none
  | count + 1, length :: rest =>
      if length.toList.head? ≠ some '$' then none
      else
        match rest with
        | [] => none
        | data :: rest => (parseArgs count rest).map (data :: ·)

/-- The command of `Command::parse`, from its arguments. -/
def matchArgs : List String -> Option Command
  | [] => none
  | name :: values =>
      let commandName := toUppercase name
      match commandName with
      | "GET" =>
          match values with
          | [key] => some (.get key)
          | _ => none
      | "SET" =>
          match values with
          | [key, value] => some (.set key value)
          | _ => none
      | "DEL" =>
          match values with
          | [key] => some (.del key)
          | _ => none
      | "PING" => some .ping
      | _ => some (.unknown commandName)

/-- The lines of a text. -/
def textLines (text : String) : List String := (lines text.toList).map String.ofList

/-- The arguments of a message: so many as its first line announces. -/
def messageArgs (input : String) : Option (List String) :=
  match textLines input with
  | [] => none
  | first :: rest =>
      match first.toList with
      | '*' :: count => do
          let numArgs <- parseUsize count
          parseArgs numArgs rest
      | _ => none

/-- Parse a message into a command. -/
def Command.parse (input : String) : Option Command := do
  let args <- messageArgs input
  matchArgs toUppercase args

/-! ## The loop -/

/-- The command of `Server::handle_client`, from the arguments that a turn of the loop
has collected, of which there is one at least. -/
def commandOf (args : List String) : Command :=
  let commandName := toUppercase (args.headD "")
  match commandName, args with
  | "GET", [_, key] => .get key
  | "SET", [_, key, value] => .set key value
  | "DEL", [_, key] => .del key
  | "PING", _ => .ping
  | _, _ => .unknown commandName

/-- The command of one turn of the loop, if it comes to one. -/
def frameCommand (stream : List Line) : Option Command :=
  match readFrame stream with
  | some (.request args, _) => some (commandOf toUppercase args)
  | _ => none

/-- The commands that the loop builds from a stream. -/
def commands (stream : List Line) : List Command :=
  (collected (readFrames stream)).map (commandOf toUppercase)

/-! ## Agreement -/

variable {toUppercase} {args : List String} {command : Command}

theorem feed_eq (text : String) : feed text = (textLines text).map (Except.ok : String -> Line) := by
  unfold feed textLines
  rw [List.map_map]
  rfl

/-- Both collect the same arguments. -/
theorem readArgs_map (count : Nat) (texts : List String) :
    (readArgs count (texts.map (Except.ok : String -> Line))).1 = parseArgs count texts := by
  fun_induction parseArgs count texts with
  | case1 texts => cases texts <;> rfl
  | case2 count => rfl
  | case3 count length rest other => simp only [List.map_cons, readArgs, if_pos other]
  | case4 count length marked => simp only [List.map_cons, List.map_nil, readArgs, if_neg marked]
  | case5 count length marked data rest inductionHypothesis =>
      simp only [List.map_cons, readArgs, if_neg marked, inductionHypothesis]

/-- The first turn of the loop comes to the arguments of the message, if there are
any, and to no request otherwise. -/
theorem readFrame_feed (input : String) (args : List String) :
    (Exists fun rest => readFrame (feed input) = some (.request args, rest)) <->
      messageArgs input = some args ∧ args ≠ [] := by
  rw [feed_eq]
  unfold messageArgs
  cases textLines input with
  | nil =>
      constructor
      · rintro ⟨_, impossible⟩
        cases impossible
      · rintro ⟨impossible, _⟩
        cases impossible
  | cons first rest =>
      rw [List.map_cons]
      by_cases announces : Exists fun count => first.toList = '*' :: count
      · rcases announces with ⟨count, begins⟩
        simp only [readFrame, begins]
        cases parseUsize count with
        | none => simp
        | some numArgs =>
            dsimp only
            change _ <-> parseArgs numArgs rest = some args ∧ args ≠ []
            rw [← readArgs_map numArgs rest]
            rcases readArgs numArgs (rest.map (Except.ok : String -> Line)) with ⟨_ | _ | ⟨arg, others⟩, left⟩
            · simp
            · simp
            · constructor
              · rintro ⟨_, same⟩
                cases same
                exact ⟨rfl, List.cons_ne_nil _ _⟩
              · rintro ⟨same, _⟩
                cases same
                exact ⟨left, rfl⟩
      · constructor
        · rintro ⟨left, turned⟩
          simp only [readFrame] at turned
          split at turned
          · next count begins => exact absurd ⟨count, begins⟩ announces
          · cases turned
        · rintro ⟨found, _⟩
          dsimp only at found
          split at found
          · next count begins => exact absurd ⟨count, begins⟩ announces
          · cases found

/-- What the parser makes of arguments, the loop makes of them as well. -/
theorem commandOf_of_matchArgs (matched : matchArgs toUppercase args = some command) :
    commandOf toUppercase args = command := by
  unfold matchArgs at matched
  split at matched
  · cases matched
  · next name values =>
      unfold commandOf
      simp only [List.headD_cons] at matched ⊢
      split at matched
      · next get =>
          split at matched
          · cases matched
            rw [get]
            rfl
          · cases matched
      · next set =>
          split at matched
          · cases matched
            rw [set]
            rfl
          · cases matched
      · next del =>
          split at matched
          · cases matched
            rw [del]
            rfl
          · cases matched
      · next ping =>
          cases matched
          rw [ping]
          rfl
      · next notGet notSet notDel notPing =>
          cases matched
          split
          · next get _ => exact absurd get notGet
          · next set _ => exact absurd set notSet
          · next del _ => exact absurd del notDel
          · next ping => exact absurd ping notPing
          · rfl

/-- What the parser refuses, the loop takes for an unknown command. -/
theorem commandOf_of_refused {name : String} {values : List String}
    (refused : matchArgs toUppercase (name :: values) = none) :
    Exists fun unknown => commandOf toUppercase (name :: values) = .unknown unknown := by
  unfold matchArgs at refused
  unfold commandOf
  simp only [List.headD_cons] at refused ⊢
  refine ⟨toUppercase name, ?_⟩
  split
  · next get same =>
      cases same
      rw [get] at refused
      cases refused
  · next set same =>
      cases same
      rw [set] at refused
      cases refused
  · next del same =>
      cases same
      rw [del] at refused
      cases refused
  · next ping =>
      rw [ping] at refused
      cases refused
  · rfl

/-- **The two readers agree.**  If the parser makes a command of a message, it is the
first one that the loop builds from its lines, in its first turn.  If the parser
refuses the message, the first turn builds an unknown command or none. -/
theorem readers_agree (toUppercase : String -> String) (input : String) :
    (forall command, Command.parse toUppercase input = some command ->
      frameCommand toUppercase (feed input) = some command ∧
      (commands toUppercase (feed input)).head? = some command) ∧
    (Command.parse toUppercase input = none -> forall command,
      frameCommand toUppercase (feed input) = some command ->
        Exists fun name => command = .unknown name) := by
  constructor
  · intro command parsed
    rcases Option.bind_eq_some_iff.mp parsed with ⟨args, found, matched⟩
    have nonempty : args ≠ [] := by
      rintro rfl
      cases matched
    rcases (readFrame_feed input args).mpr ⟨found, nonempty⟩ with ⟨rest, turned⟩
    have built := commandOf_of_matchArgs matched
    constructor
    · rw [frameCommand, turned, ← built]
    · rw [commands, readFrames_of_readFrame turned, ← built]
      rfl
  · intro refused command built
    unfold frameCommand at built
    split at built
    · next args rest turned =>
        cases built
        rcases (readFrame_feed input args).mp ⟨rest, turned⟩ with ⟨found, nonempty⟩
        rcases List.exists_cons_of_ne_nil nonempty with ⟨name, values, rfl⟩
        apply commandOf_of_refused
        unfold Command.parse at refused
        rw [found] at refused
        exact refused
    · cases built

/-- A name in mixed case, and a known name with too few arguments. -/
theorem readers_agree_mixed :
    frameCommand String.toUpper (feed "*2\r\n$3\r\nGet\r\n$1\r\nk\r\n") = some (.get "k") ∧
    (forall command, frameCommand String.toUpper (feed "*1\n$3\nGET\n") = some command ->
      Exists fun name => command = .unknown name) := by
  have parsed : Command.parse String.toUpper "*2\r\n$3\r\nGet\r\n$1\r\nk\r\n" =
      some (.get "k") := by decide +kernel
  have refused : Command.parse String.toUpper "*1\n$3\nGET\n" = none := by decide +kernel
  exact ⟨((readers_agree String.toUpper _).1 _ parsed).1,
    (readers_agree String.toUpper _).2 refused⟩

end Readers
end Network
end RaftStore
