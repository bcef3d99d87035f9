import RaftStore.Collections.Texts

namespace RaftStore
namespace Collections

/-!
# Items on lines of their own

Bytes arrive in a stream that may be cut anywhere.  A reader takes them line by
line, and an item is written as a text on one line.  If no part of such a text can
be taken for an item, the reader gets every item that has arrived whole, and
nothing else.
-/

/-! ## Lines of bytes -/

/-- The lines that are ended by a line feed, and the bytes behind the last one. -/
def cutLines : List UInt8 -> List (List UInt8) × List UInt8
  | [] => ([], [])
  | byte :: rest =>
      let (ended, left) := cutLines rest
      if byte = 10 then ([] :: ended, left)
      else
        match ended with
        | [] => ([], byte :: left)
        | line :: more => ((byte :: line) :: more, left)

/-- Strip one carriage return from the end of a line. -/
def stripReturn (line : List UInt8) : List UInt8 :=
  if line.getLast? = some 13 then line.dropLast else line

/-- How a stream ends: the other side closes it, or it cannot be read any further. -/
inductive Ending where
  | closed
  | broken
  deriving DecidableEq, Repr

/-- Why there is no line to be read. -/
inductive ReadError where
  | broken
  | notText
  deriving DecidableEq, Repr

/-- The text of a line. -/
def lineText (line : List UInt8) : Except ReadError String :=
  match textOf line with
  | none => .error .notText
  | some text => .ok text

/-- What is read of the bytes behind the last line feed. -/
def lastLine (ending : Ending) (left : List UInt8) : List (Except ReadError String) :=
  match ending with
  | .broken => [.error .broken]
  | .closed => if left = [] then [] else [lineText left]

/-- `BufRead::lines`.  Only a line that is ended by a line feed loses its carriage
return. -/
def readLines (ending : Ending) (bytes : List UInt8) : List (Except ReadError String) :=
  let (ended, left) := cutLines bytes
  ended.map (fun line => lineText (stripReturn line)) ++ lastLine ending left

section Lines

variable {ending : Ending} {line bytes : List UInt8}

theorem cutLines_of_notMem (single : 10 ∉ bytes) : cutLines bytes = ([], bytes) := by
  induction bytes with
  | nil => rfl
  | cons byte rest inductionHypothesis =>
      have parts := not_or.mp (fun either => single (List.mem_cons.mpr either))
      rw [cutLines, inductionHypothesis parts.2]
      exact if_neg fun same => parts.1 same.symm

theorem cutLines_append (single : 10 ∉ line) (rest : List UInt8) :
    cutLines (line ++ 10 :: rest) = (line :: (cutLines rest).1, (cutLines rest).2) := by
  induction line with
  | nil => rfl
  | cons byte line inductionHypothesis =>
      have parts := not_or.mp (fun either => single (List.mem_cons.mpr either))
      rw [List.cons_append, cutLines, inductionHypothesis parts.2]
      exact if_neg fun same => parts.1 same.symm

/-- A line in front of a line feed is read first. -/
theorem readLines_append (single : 10 ∉ line) (rest : List UInt8) :
    readLines ending (line ++ 10 :: rest) =
      lineText (stripReturn line) :: readLines ending rest := by
  unfold readLines
  rw [cutLines_append single]
  rfl

/-- Without a line feed there is one line at most. -/
theorem readLines_of_notMem (single : 10 ∉ bytes) :
    readLines ending bytes = lastLine ending bytes := by
  unfold readLines
  rw [cutLines_of_notMem single]
  rfl

theorem feed_notMem_cutLines (bytes : List UInt8) :
    (forall line, line ∈ (cutLines bytes).1 -> 10 ∉ line) ∧ 10 ∉ (cutLines bytes).2 := by
  induction bytes with
  | nil => exact ⟨fun _ listed => (List.not_mem_nil listed).elim, List.not_mem_nil⟩
  | cons byte rest inductionHypothesis =>
      rcases inductionHypothesis with ⟨ended, left⟩
      simp only [cutLines]
      split
      · refine ⟨fun line listed => ?_, left⟩
        rcases List.mem_cons.mp listed with rfl | behind
        · exact List.not_mem_nil
        · exact ended line behind
      · next other =>
          have grows : forall {line : List UInt8}, 10 ∉ line -> 10 ∉ byte :: line := by
            intro line single listed
            rcases List.mem_cons.mp listed with same | behind
            · exact other same.symm
            · exact single behind
          split
          · exact ⟨fun _ listed => (List.not_mem_nil listed).elim, grows left⟩
          · next line more equal =>
              rw [equal] at ended
              refine ⟨fun found listed => ?_, left⟩
              rcases List.mem_cons.mp listed with rfl | behind
              · exact grows (ended line List.mem_cons_self)
              · exact ended found (List.mem_cons_of_mem _ behind)

theorem feed_notMem_lineText {text : String} (single : 10 ∉ line) (read : lineText line = .ok text) :
    '\n' ∉ text.toList := by
  unfold lineText at read
  split at read
  · cases read
  · next decoded =>
      cases read
      intro listed
      rw [← bytesOf_of_textOf decoded] at single
      exact single (feed_mem_bytesOf listed)

/-- No line that is read has a line feed. -/
theorem feed_notMem_readLines {text : String} (listed : .ok text ∈ readLines ending bytes) :
    '\n' ∉ text.toList := by
  have single := feed_notMem_cutLines bytes
  rcases List.mem_append.mp listed with whole | left
  · rcases List.mem_map.mp whole with ⟨line, among, read⟩
    refine feed_notMem_lineText (fun inside => single.1 line among ?_) read
    unfold stripReturn at inside
    split at inside
    · exact List.dropLast_subset _ inside
    · exact inside
  · cases ending with
    | broken => cases List.mem_singleton.mp left
    | closed =>
        simp only [lastLine] at left
        split at left
        · exact (List.not_mem_nil left).elim
        · exact feed_notMem_lineText single.2 (List.mem_singleton.mp left).symm

/-- A carriage return is stripped from the bytes of a text where it is stripped from the
text. -/
theorem stripReturn_bytesOf (characters : List Char) :
    stripReturn (bytesOf (String.ofList characters)) = bytesOf (String.ofList
      (if characters.getLast? = some '\r' then characters.dropLast else characters)) := by
  unfold stripReturn
  by_cases last : characters.getLast? = some '\r'
  · rw [if_pos (getLast?_bytesOf.mpr (by rwa [String.toList_ofList])), if_pos last]
    rcases List.getLast?_eq_some_iff.mp last with ⟨front, rfl⟩
    rw [List.dropLast_concat, String.ofList_append, bytesOf_append,
      show bytesOf (String.ofList ['\r']) = [13] by decide, List.dropLast_concat]
  · rw [if_neg (fun byte => last (by rw [← getLast?_bytesOf.mp byte, String.toList_ofList])),
      if_neg last]

theorem lineText_bytesOf (text : String) : lineText (bytesOf text) = .ok text := by
  unfold lineText
  rw [textOf_bytesOf]

end Lines

/-! ## Items -/

/-- How items are written as texts and read from texts. -/
structure Codec (μ : Type) where
  encode : μ -> Option String
  decode : String -> Option μ

namespace Codec

variable {μ : Type}

/-- What is sent for an item. -/
def record (codec : Codec μ) (item : μ) : List UInt8 :=
  match codec.encode item with
  | none => []
  | some text => bytesOf (text ++ "\n")

/-- What is sent for items one after the other. -/
def stream (codec : Codec μ) (items : List μ) : List UInt8 := items.flatMap codec.record

/-- The items on the lines.  Empty lines and those without an item are skipped, and
the reader stops where no line can be read. -/
def receive (codec : Codec μ) : List (Except ReadError String) -> List μ
  | [] => []
  | .error _ :: _ => []
  | .ok line :: rest =>
      if line = "" then receive codec rest
      else
        match codec.decode line with
        | none => receive codec rest
        | some item => item :: receive codec rest

/-- The item is written as this text, on one line, and is read from it.  No part of
the text can be read as an item. -/
structure Carries (codec : Codec μ) (item : μ) (text : String) : Prop where
  written : codec.encode item = some text
  read : codec.decode text = some item
  single : '\n' ∉ text.toList
  solid : text.toList.getLast? ≠ some '\r'
  visible : text ≠ ""
  whole : forall part : String, part.toList <+: text.toList -> part ≠ text ->
    codec.decode part = none

/-- The items can be sent. -/
def Faithful (codec : Codec μ) (items : List μ) : Prop :=
  forall item, item ∈ items -> Exists fun text => codec.Carries item text

/-- The bytes that need not arrive for a last item to be read: its line feed, if the
stream is closed behind it. -/
def slack : Ending -> Nat
  | .closed => 1
  | .broken => 0

variable {codec : Codec μ} {item : μ} {text : String} {ending : Ending}

theorem Carries.record_eq (carries : codec.Carries item text) :
    codec.record item = bytesOf text ++ [10] := by
  unfold record
  rw [carries.written]
  exact bytesOf_append text "\n"

theorem Carries.feed_notMem (carries : codec.Carries item text) : 10 ∉ bytesOf text :=
  feed_notMem_bytesOf carries.single

/-- The line of an item loses nothing when it is read. -/
theorem Carries.stripReturn_eq (carries : codec.Carries item text) :
    stripReturn (bytesOf text) = bytesOf text :=
  if_neg fun last => carries.solid (getLast?_bytesOf.mp last)

theorem Carries.receive_cons (carries : codec.Carries item text)
    (rest : List (Except ReadError String)) :
    codec.receive (.ok text :: rest) = item :: codec.receive rest := by
  rw [receive, if_neg carries.visible]
  simp only [carries.read]

/-- A text that has arrived before the stream is closed is read without its line
feed. -/
theorem Carries.receive_whole (carries : codec.Carries item text) :
    codec.receive (lastLine .closed (bytesOf text)) = [item] := by
  have nonempty : bytesOf text ≠ [] := by
    intro empty
    have decoded := textOf_bytesOf text
    rw [empty, show textOf [] = some "" by decide] at decoded
    exact carries.visible (Option.some.inj decoded).symm
  rw [lastLine, if_neg nonempty, lineText_bytesOf]
  exact carries.receive_cons []

/-- Nothing is read of a text that has arrived in part. -/
theorem Carries.receive_part (carries : codec.Carries item text) {part : List UInt8}
    (begins : part <+: bytesOf text) (proper : part ≠ bytesOf text) :
    codec.receive (lastLine ending part) = [] := by
  cases ending with
  | broken => rfl
  | closed =>
      by_cases nothing : part = []
      · rw [lastLine, if_pos nothing]
        rfl
      · rw [lastLine, if_neg nothing, lineText]
        cases decoded : textOf part with
        | none => rfl
        | some read =>
            have bytes := bytesOf_of_textOf decoded
            have different : read ≠ text := by
              rintro rfl
              exact proper bytes.symm
            have unread := carries.whole read (prefix_of_bytesOf (bytes ▸ begins)) different
            simp only [receive, unread]
            split <;> rfl

theorem stream_cons (codec : Codec μ) (item : μ) (items : List μ) :
    codec.stream (item :: items) = codec.record item ++ codec.stream items :=
  List.flatMap_cons

theorem Carries.length_stream (carries : codec.Carries item text) (items : List μ) :
    (codec.stream (item :: items)).length = (bytesOf text).length + 1 + (codec.stream items).length := by
  rw [stream_cons, carries.record_eq, List.length_append, List.length_append, List.length_singleton]

theorem Faithful.tail {items : List μ} (faithful : codec.Faithful (item :: items)) :
    codec.Faithful items :=
  fun other listed => faithful other (List.mem_cons_of_mem _ listed)

/-- The number of items that have arrived whole after so many bytes: as many as fit. -/
structure Arrived (codec : Codec μ) (ending : Ending) (items : List μ) (bytes count : Nat) : Prop where
  within : count ≤ items.length
  complete : (codec.stream (items.take count)).length ≤ bytes + slack ending
  next : count < items.length ->
    bytes + slack ending < (codec.stream (items.take (count + 1))).length

theorem Carries.arrived_none (carries : codec.Carries item text) {items : List μ} {bytes : Nat}
    (short : bytes + slack ending < (bytesOf text).length + 1) :
    codec.Arrived ending (item :: items) bytes 0 where
  within := Nat.zero_le _
  complete := Nat.zero_le _
  next _ := by
    rw [List.take_succ_cons, carries.length_stream]
    omega

theorem Carries.arrived_one (carries : codec.Carries item text) {items : List μ}
    (faithful : codec.Faithful items) :
    codec.Arrived .closed (item :: items) (bytesOf text).length 1 where
  within := Nat.succ_le_succ (Nat.zero_le _)
  complete := by
    rw [List.take_succ_cons, carries.length_stream, List.take_zero]
    exact Nat.le_refl _
  next more := by
    cases items with
    | nil => exact absurd more (Nat.lt_irrefl _)
    | cons second items =>
        rcases faithful second List.mem_cons_self with ⟨behind, carriesToo⟩
        rw [List.take_succ_cons, carries.length_stream, List.take_succ_cons, carriesToo.length_stream]
        simp only [slack]
        omega

theorem Carries.arrived_more (carries : codec.Carries item text) {items : List μ} {bytes count : Nat}
    (arrived : codec.Arrived ending items bytes count) :
    codec.Arrived ending (item :: items) ((bytesOf text).length + 1 + bytes) (count + 1) where
  within := Nat.succ_le_succ arrived.within
  complete := by
    have complete := arrived.complete
    rw [List.take_succ_cons, carries.length_stream]
    omega
  next more := by
    have next := arrived.next (Nat.lt_of_succ_lt_succ more)
    rw [List.take_succ_cons, carries.length_stream]
    omega

/-- What is read when the first text has not arrived with its line feed. -/
theorem Carries.receive_first (carries : codec.Carries item text) {items : List μ}
    (faithful : codec.Faithful items) {bytes : Nat} (inside : bytes ≤ (bytesOf text).length) :
    Exists fun count => codec.Arrived ending (item :: items) bytes count ∧
      codec.receive (lastLine ending ((bytesOf text).take bytes)) = (item :: items).take count := by
  by_cases whole : ending = .closed ∧ bytes = (bytesOf text).length
  · rcases whole with ⟨rfl, rfl⟩
    refine ⟨1, carries.arrived_one faithful, ?_⟩
    rw [List.take_length]
    exact carries.receive_whole
  · cases ending with
    | broken => exact ⟨0, carries.arrived_none (Nat.lt_succ_of_le inside), rfl⟩
    | closed =>
        have proper : bytes ≠ (bytesOf text).length := fun equal => whole ⟨rfl, equal⟩
        refine ⟨0, carries.arrived_none ?_, carries.receive_part (List.take_prefix _ _) fun equal => ?_⟩
        · simp only [slack]
          omega
        · have length := congrArg List.length equal
          rw [List.length_take] at length
          omega

/-- **Whole items or none.**  However much of a stream of items arrives, and however
it ends, the reader gets exactly the items that have arrived whole. -/
theorem receive_take {items : List μ} (faithful : codec.Faithful items) (ending : Ending)
    (bytes : Nat) :
    Exists fun count => codec.Arrived ending items bytes count ∧
      codec.receive (readLines ending ((codec.stream items).take bytes)) = items.take count := by
  induction items generalizing bytes with
  | nil =>
      refine ⟨0, ⟨Nat.le_refl _, Nat.zero_le _, fun more => absurd more (Nat.lt_irrefl _)⟩, ?_⟩
      rw [stream, List.flatMap_nil, List.take_nil]
      cases ending <;> rfl
  | cons item items inductionHypothesis =>
      rcases faithful item List.mem_cons_self with ⟨text, carries⟩
      have sent : codec.stream (item :: items) = bytesOf text ++ 10 :: codec.stream items := by
        rw [stream_cons, carries.record_eq, List.append_assoc, List.singleton_append]
      rw [sent]
      by_cases inside : bytes ≤ (bytesOf text).length
      · have part : (bytesOf text ++ 10 :: codec.stream items).take bytes =
            (bytesOf text).take bytes := List.take_append_of_le_length inside
        rw [part, readLines_of_notMem fun listed => carries.feed_notMem (List.mem_of_mem_take listed)]
        exact carries.receive_first faithful.tail inside
      · obtain ⟨more, rfl⟩ : Exists fun more => bytes = (bytesOf text).length + 1 + more :=
          ⟨bytes - ((bytesOf text).length + 1), by omega⟩
        rcases inductionHypothesis faithful.tail more with ⟨count, arrived, received⟩
        refine ⟨count + 1, carries.arrived_more arrived, ?_⟩
        have split : (bytesOf text ++ 10 :: codec.stream items).take
            ((bytesOf text).length + 1 + more) =
              bytesOf text ++ 10 :: (codec.stream items).take more := by
          rw [Nat.add_assoc, List.take_length_add_append, Nat.add_comm 1 more, List.take_succ_cons]
        rw [split, readLines_append carries.feed_notMem, carries.stripReturn_eq, lineText_bytesOf,
          carries.receive_cons, received, List.take_succ_cons]

/-! ## Tables -/

section Table

variable [DecidableEq μ] {table : List (μ × String)}

/-- The codec that writes items as a table says, and reads nothing else. -/
def ofTable (table : List (μ × String)) : Codec μ where
  encode item := (table.find? fun entry => entry.1 = item).map Prod.snd
  decode text := (table.find? fun entry => entry.2 = text).map Prod.fst

/-- Items and texts determine each other, each text is on one line, and none is the
beginning of another one. -/
def Separates (table : List (μ × String)) : Prop :=
  forall entry, entry ∈ table ->
    (ofTable table).encode entry.1 = some entry.2 ∧ (ofTable table).decode entry.2 = some entry.1 ∧
    '\n' ∉ entry.2.toList ∧ entry.2.toList.getLast? ≠ some '\r' ∧ entry.2 ≠ "" ∧
    forall other, other ∈ table -> other.2.toList <+: entry.2.toList -> other.2 = entry.2

instance (table : List (μ × String)) : Decidable (Separates table) :=
  inferInstanceAs (Decidable (forall entry, entry ∈ table -> _))

theorem faithful_ofTable (separates : Separates table) {items : List μ}
    (listed : forall item, item ∈ items -> item ∈ table.map Prod.fst) :
    (ofTable table).Faithful items := by
  intro item among
  rcases List.mem_map.mp (listed item among) with ⟨entry, present, rfl⟩
  rcases separates entry present with ⟨written, read, single, solid, visible, apart⟩
  refine ⟨entry.2, written, read, single, solid, visible, fun part begins different => ?_⟩
  refine Option.map_eq_none_iff.mpr (List.find?_eq_none.mpr fun other member equal => ?_)
  rw [← of_decide_eq_true equal] at begins different
  exact different (apart other member begins)

end Table
end Codec
end Collections
end RaftStore
