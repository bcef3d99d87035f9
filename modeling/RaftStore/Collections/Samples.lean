import RaftStore.Collections.Lines
import Mathlib.Data.List.Basic

namespace RaftStore
namespace Collections

/-!
# Samples as text

A monitored program shows its state as families of samples.  A family has a line with
a text for the reader, a line with its kind, and a line with its sample, which has
labels and a value, itself a text.  The reader here takes such texts apart again.
-/

/-- A value under a name, with labels. -/
structure Sample where
  name : String
  labels : List (String × String)
  value : String
  deriving DecidableEq, Repr

/-- A sample with its description and its kind. -/
structure Family where
  help : String
  kind : String
  sample : Sample
  deriving DecidableEq, Repr

/-- A line of the text. -/
inductive Item where
  | help (name text : String)
  | kind (name kind : String)
  | sample (sample : Sample)
  deriving DecidableEq, Repr

/-! ## Writing -/

/-- A label in the text of a sample. -/
def labelText (label : String × String) : List Char :=
  label.1.toList ++ '=' :: '"' :: (label.2.toList ++ ['"'])

def Sample.text (sample : Sample) : List Char :=
  sample.name.toList ++ '\x7b' :: ([','].intercalate (sample.labels.map labelText) ++
    '\x7d' :: ' ' :: sample.value.toList)

def Item.text : Item -> List Char
  | .help name words =>
      '#' :: ' ' :: 'H' :: 'E' :: 'L' :: 'P' :: ' ' :: (name.toList ++ ' ' :: words.toList)
  | .kind name word =>
      '#' :: ' ' :: 'T' :: 'Y' :: 'P' :: 'E' :: ' ' :: (name.toList ++ ' ' :: word.toList)
  | .sample own => own.text

/-- The lines of a family. -/
def Family.items (family : Family) : List Item :=
  [.help family.sample.name family.help, .kind family.sample.name family.kind,
    .sample family.sample]

/-- The text of families one after the other. -/
def exposition (families : List Family) : String :=
  String.ofList (((families.flatMap Family.items).map Item.text).flatMap fun text => text ++ ['\n'])

/-! ## Reading -/

/-- The characters before the first mark, and those behind it. -/
def cutAt (mark : Char) : List Char -> Option (List Char × List Char)
  | [] => none
  | character :: rest =>
      if character = mark then some ([], rest)
      else (cutAt mark rest).map fun parts => (character :: parts.1, parts.2)

def readLabel (text : List Char) : Option (String × String) := do
  let (key, rest) <- cutAt '=' text
  match rest with
  | '"' :: quoted =>
      let (value, behind) <- cutAt '"' quoted
      if behind = [] then some (String.ofList key, String.ofList value) else none
  | _ => none

def readSample (text : List Char) : Option Sample := do
  let (name, rest) <- cutAt '\x7b' text
  let (inside, behind) <- cutAt '\x7d' rest
  let labels <- (inside.splitOn ',').mapM readLabel
  match behind with
  | ' ' :: value => some ⟨String.ofList name, labels, String.ofList value⟩
  | _ => none

def readItem : List Char -> Option Item
  | '#' :: ' ' :: 'H' :: 'E' :: 'L' :: 'P' :: ' ' :: rest =>
      (cutAt ' ' rest).map fun parts => .help (String.ofList parts.1) (String.ofList parts.2)
  | '#' :: ' ' :: 'T' :: 'Y' :: 'P' :: 'E' :: ' ' :: rest =>
      (cutAt ' ' rest).map fun parts => .kind (String.ofList parts.1) (String.ofList parts.2)
  | text => (readSample text).map .sample

/-- The families of lines.  Each sample stands behind the two lines about it. -/
def families : List Item -> Option (List Family)
  | [] => some []
  | .help name help :: .kind typed kind :: .sample sample :: rest =>
      if name = sample.name ∧ typed = sample.name then
        (families rest).map fun others => ⟨help, kind, sample⟩ :: others
      else none
  | _ => none

/-- The families in the bytes of a text. -/
def readFamilies (bytes : List UInt8) : Option (List Family) := do
  let items <- (readLines .closed bytes).mapM fun line =>
    line.toOption.bind fun text => readItem text.toList
  families items

/-! ## Reading what was written -/

/-- A character of a name. -/
def isWord (character : Char) : Bool := character.isAlphanum || character = '_'

/-- The text has no line end. -/
def OneLine (text : List Char) : Prop := '\n' ∉ text ∧ '\r' ∉ text

instance (text : List Char) : Decidable (OneLine text) := inferInstanceAs (Decidable (_ ∧ _))

/-- The family can be read from its text: there is a label, and all names are words. -/
structure Family.Plain (family : Family) : Prop where
  name : family.sample.name.toList.all isWord
  labels : forall label, label ∈ family.sample.labels ->
    label.1.toList.all isWord ∧ label.2.toList.all isWord
  labeled : family.sample.labels ≠ []
  value : OneLine family.sample.value.toList
  kind : family.kind.toList.all isWord
  help : OneLine family.help.toList

section Reading

variable {mark : Char} {front text : List Char} {label : String × String} {family : Family}

theorem notMem_of_words (words : text.all isWord) (odd : isWord mark = false) : mark ∉ text := by
  intro listed
  have word := List.all_eq_true.mp words mark listed
  rw [odd] at word
  cases word

theorem cutAt_append (apart : mark ∉ front) (rest : List Char) :
    cutAt mark (front ++ mark :: rest) = some (front, rest) := by
  induction front with
  | nil => exact if_pos rfl
  | cons character front inductionHypothesis =>
      have parts := not_or.mp (fun either => apart (List.mem_cons.mpr either))
      rw [List.cons_append, cutAt, if_neg fun same => parts.1 same.symm,
        inductionHypothesis parts.2]
      rfl

/-- What is written item by item can be read item by item. -/
theorem mapM_map_of_reads {α β : Type} {write : α -> β} {read : β -> Option α} {items : List α}
    (reads : forall item, item ∈ items -> read (write item) = some item) :
    (items.map write).mapM read = some items := by
  induction items with
  | nil => rfl
  | cons item items inductionHypothesis =>
      rw [List.map_cons, List.mapM_cons, reads item List.mem_cons_self,
        inductionHypothesis fun other listed => reads other (List.mem_cons_of_mem _ listed)]
      rfl

theorem mem_intercalate {character : Char} {texts : List (List Char)}
    (listed : character ∈ [mark].intercalate texts) :
    character = mark ∨ Exists fun text => text ∈ texts ∧ character ∈ text := by
  induction texts with
  | nil => exact (List.not_mem_nil listed).elim
  | cons text texts inductionHypothesis =>
      by_cases single : texts = []
      · rw [single, List.intercalate_singleton] at listed
        exact Or.inr ⟨text, List.mem_cons_self, listed⟩
      · rw [List.intercalate_cons_of_ne_nil single] at listed
        rcases List.mem_append.mp listed with front | behind
        · rcases List.mem_append.mp front with here | between
          · exact Or.inr ⟨text, List.mem_cons_self, here⟩
          · exact Or.inl (List.mem_singleton.mp between)
        · rcases inductionHypothesis behind with same | ⟨other, among, inside⟩
          · exact Or.inl same
          · exact Or.inr ⟨other, List.mem_cons_of_mem _ among, inside⟩

/-! ### Labels -/

theorem readLabel_labelText (key : label.1.toList.all isWord) (value : label.2.toList.all isWord) :
    readLabel (labelText label) = some label := by
  have quoted : cutAt '"' (label.2.toList ++ ['"']) = some (label.2.toList, []) :=
    cutAt_append (notMem_of_words value (by decide)) []
  unfold readLabel labelText
  rw [cutAt_append (notMem_of_words key (by decide))]
  simp only [Option.bind_eq_bind, Option.bind_some, quoted, if_true, String.ofList_toList]

theorem notMem_labelText (key : label.1.toList.all isWord) (value : label.2.toList.all isWord)
    (odd : isWord mark = false) (other : mark ≠ '=' ∧ mark ≠ '"') : mark ∉ labelText label := by
  intro listed
  rcases List.mem_append.mp listed with front | behind
  · exact notMem_of_words key odd front
  · rcases List.mem_cons.mp behind with same | quoted
    · exact other.1 same
    · rcases List.mem_cons.mp quoted with same | rest
      · exact other.2 same
      · rcases List.mem_append.mp rest with inside | last
        · exact notMem_of_words value odd inside
        · exact other.2 (List.mem_singleton.mp last)

theorem Family.Plain.notMem_labels (plain : family.Plain) (odd : isWord mark = false)
    (other : mark ≠ '=' ∧ mark ≠ '"') (apart : mark ≠ ',') :
    mark ∉ [','].intercalate (family.sample.labels.map labelText) := by
  intro listed
  rcases mem_intercalate listed with same | ⟨text, among, inside⟩
  · exact apart same
  · rcases List.mem_map.mp among with ⟨label, present, rfl⟩
    rcases plain.labels label present with ⟨key, value⟩
    exact notMem_labelText key value odd other inside

/-! ### Lines -/

theorem Family.Plain.readSample (plain : family.Plain) :
    readSample family.sample.text = some family.sample := by
  have labels : (([','].intercalate (family.sample.labels.map labelText)).splitOn ',').mapM
      readLabel = some family.sample.labels := by
    rw [List.splitOn_intercalate]
    · refine mapM_map_of_reads fun label listed => ?_
      rcases plain.labels label listed with ⟨key, value⟩
      exact readLabel_labelText key value
    · intro text listed
      rcases List.mem_map.mp listed with ⟨label, present, rfl⟩
      rcases plain.labels label present with ⟨key, value⟩
      exact notMem_labelText key value (by decide) (by decide)
    · exact fun empty => plain.labeled (List.map_eq_nil_iff.mp empty)
  have closed : cutAt '\x7d' ([','].intercalate (family.sample.labels.map labelText) ++
      '\x7d' :: ' ' :: family.sample.value.toList) =
        some ([','].intercalate (family.sample.labels.map labelText),
          ' ' :: family.sample.value.toList) :=
    cutAt_append (plain.notMem_labels (by decide) (by decide) (by decide)) _
  unfold Collections.readSample Sample.text
  rw [cutAt_append (notMem_of_words plain.name (by decide))]
  simp only [Option.bind_eq_bind, Option.bind_some, closed, labels, String.ofList_toList]

/-- No name begins with the mark of the lines about a family. -/
theorem Family.Plain.begins (plain : family.Plain) (rest : List Char) :
    family.sample.text ≠ '#' :: rest := by
  unfold Sample.text
  intro same
  cases name : family.sample.name.toList with
  | nil =>
      rw [name] at same
      cases same
  | cons first others =>
      rw [name] at same
      have words := plain.name
      rw [name, (List.cons.inj same).1] at words
      exact notMem_of_words words (by decide) List.mem_cons_self

theorem Family.Plain.readItem (plain : family.Plain) {item : Item} (listed : item ∈ family.items) :
    readItem item.text = some item := by
  have named : ' ' ∉ family.sample.name.toList := notMem_of_words plain.name (by decide)
  rcases List.mem_cons.mp listed with rfl | behind
  · simp only [Item.text, Collections.readItem, cutAt_append named, Option.map_some,
      String.ofList_toList]
  · rcases List.mem_cons.mp behind with rfl | last
    · simp only [Item.text, Collections.readItem, cutAt_append named, Option.map_some,
        String.ofList_toList]
    · rw [List.mem_singleton.mp last]
      unfold Item.text Collections.readItem
      split
      · next begins => exact absurd begins (plain.begins _)
      · next begins => exact absurd begins (plain.begins _)
      · rw [plain.readSample]
        rfl

/-- A character that stands in no name, in none of the marks and in no text behind them
stands on no line of the family. -/
theorem Family.Plain.notMem_item (plain : family.Plain) (odd : isWord mark = false)
    (other : mark ∉ ['#', ' ', '\x7b', '\x7d', '=', '"', ','])
    (help : mark ∉ family.help.toList) (value : mark ∉ family.sample.value.toList) {item : Item}
    (listed : item ∈ family.items) : mark ∉ item.text := by
  have name := notMem_of_words plain.name odd
  have kind := notMem_of_words plain.kind odd
  have letter : forall {character : Char}, isWord character = true -> mark ≠ character := by
    rintro _ word rfl
    rw [odd] at word
    cases word
  simp only [List.mem_cons, List.not_mem_nil, or_false, not_or] at other
  rcases other with ⟨hash, space, opening, closing, equal, quote, comma⟩
  have labels := plain.notMem_labels odd ⟨equal, quote⟩ comma
  rcases List.mem_cons.mp listed with rfl | behind
  · simp only [Item.text, List.mem_cons, List.mem_append, not_or]
    exact ⟨hash, space, letter rfl, letter rfl, letter rfl, letter rfl, space, name, space, help⟩
  · rcases List.mem_cons.mp behind with rfl | last
    · simp only [Item.text, List.mem_cons, List.mem_append, not_or]
      exact ⟨hash, space, letter rfl, letter rfl, letter rfl, letter rfl, space, name, space, kind⟩
    · rw [List.mem_singleton.mp last]
      simp only [Item.text, Sample.text, List.mem_cons, List.mem_append, not_or]
      exact ⟨name, opening, labels, closing, space, value⟩

theorem Family.Plain.oneLine (plain : family.Plain) {item : Item} (listed : item ∈ family.items) :
    OneLine item.text :=
  ⟨plain.notMem_item (by decide) (by decide) plain.help.1 plain.value.1 listed,
    plain.notMem_item (by decide) (by decide) plain.help.2 plain.value.2 listed⟩

/-! ### Texts -/

theorem exposition_append (first second : List Family) :
    exposition (first ++ second) = exposition first ++ exposition second := by
  unfold exposition
  rw [List.flatMap_append, List.map_append, List.flatMap_append, String.ofList_append]

/-- The families of their own lines. -/
theorem families_items (shown : List Family) : families (shown.flatMap Family.items) = some shown := by
  induction shown with
  | nil => rfl
  | cons family shown inductionHypothesis =>
      rw [List.flatMap_cons]
      simp only [Family.items, List.cons_append, List.nil_append, families, and_self, if_true]
      rw [inductionHypothesis]
      rfl

/-- Texts without line ends are read line by line. -/
theorem readLines_texts {texts : List (List Char)}
    (single : forall text, text ∈ texts -> OneLine text) :
    readLines .closed (bytesOf (String.ofList (texts.flatMap fun text => text ++ ['\n']))) =
      texts.map fun text => .ok (String.ofList text) := by
  induction texts with
  | nil => rfl
  | cons text texts inductionHypothesis =>
      have oneLine := single text List.mem_cons_self
      have feed : 10 ∉ bytesOf (String.ofList text) :=
        feed_notMem_bytesOf (by rw [String.toList_ofList]; exact oneLine.1)
      have solid : stripReturn (bytesOf (String.ofList text)) = bytesOf (String.ofList text) := by
        rw [stripReturn_bytesOf, if_neg]
        exact fun last => oneLine.2 (List.mem_of_getLast? last)
      rw [List.flatMap_cons, String.ofList_append, bytesOf_append, String.ofList_append,
        bytesOf_append, show bytesOf (String.ofList ['\n']) = [10] by decide, List.append_assoc,
        List.singleton_append, readLines_append feed, solid, lineText_bytesOf,
        inductionHypothesis fun other listed => single other (List.mem_cons_of_mem _ listed)]
      rfl

/-- **Plain families are read back from their text.** -/
theorem readFamilies_exposition {shown : List Family}
    (plain : forall family, family ∈ shown -> family.Plain) :
    readFamilies (bytesOf (exposition shown)) = some shown := by
  have known : forall item, item ∈ shown.flatMap Family.items ->
      OneLine item.text ∧ Collections.readItem item.text = some item := by
    intro item listed
    rcases List.mem_flatMap.mp listed with ⟨family, among, inside⟩
    exact ⟨(plain family among).oneLine inside, (plain family among).readItem inside⟩
  have lines : readLines .closed (bytesOf (exposition shown)) =
      ((shown.flatMap Family.items).map Item.text).map fun text => .ok (String.ofList text) := by
    refine readLines_texts fun text listed => ?_
    rcases List.mem_map.mp listed with ⟨item, among, rfl⟩
    exact (known item among).1
  have items : (((shown.flatMap Family.items).map Item.text).map fun text =>
      (Except.ok (String.ofList text) : Except ReadError String)).mapM (fun line =>
        line.toOption.bind fun text => Collections.readItem text.toList) =
      some (shown.flatMap Family.items) := by
    rw [List.map_map]
    refine mapM_map_of_reads fun item listed => ?_
    change Collections.readItem (String.ofList item.text).toList = some item
    rw [String.toList_ofList]
    exact (known item listed).2
  unfold readFamilies
  rw [lines, items]
  exact families_items shown

end Reading
end Collections
end RaftStore
