import Mathlib.Data.List.Basic

namespace RaftStore
namespace Collections

/-!
# Texts and their bytes

A text is a sequence of bytes that can be decoded.  Line feeds are bytes of their
own: the other characters are encoded without the byte of a line feed.
-/

/-- The bytes of a text. -/
def bytesOf (text : String) : List UInt8 := text.toByteArray.data.toList

/-- The text of some bytes, if they are one. -/
def textOf (bytes : List UInt8) : Option String := String.fromUTF8? bytes.toByteArray

section Texts

variable {text : String}

theorem fromUTF8?_eq_some {bytes : ByteArray} :
    String.fromUTF8? bytes = some text <-> bytes = text.toByteArray := by
  unfold String.fromUTF8?
  constructor
  · intro decoded
    split at decoded
    · cases decoded
      rfl
    · cases decoded
  · rintro rfl
    rw [dif_pos text.isValidUTF8]
    rfl

theorem textOf_bytesOf (text : String) : textOf (bytesOf text) = some text := by
  apply fromUTF8?_eq_some.mpr
  apply ByteArray.ext
  rw [List.data_toByteArray]
  rfl

theorem bytesOf_append (first second : String) :
    bytesOf (first ++ second) = bytesOf first ++ bytesOf second := by
  unfold bytesOf
  rw [String.toByteArray_append, ByteArray.data_append, Array.toList_append]

/-- Bytes of a text that are a text themselves are the beginning of it. -/
theorem prefix_of_bytesOf {part whole : String} (begins : bytesOf part <+: bytesOf whole) :
    part.toList <+: whole.toList := by
  rcases begins with ⟨rest, equal⟩
  have bytes : part.toByteArray ++ rest.toByteArray = whole.toByteArray := by
    apply ByteArray.ext
    rw [ByteArray.data_append, List.data_toByteArray]
    exact Array.toList_inj.mp (by rw [Array.toList_append]; exact equal)
  rw [← String.utf8Encode_toList, ← String.utf8Encode_toList] at bytes
  exact List.isPrefix_of_utf8Encode_append_eq_utf8Encode _ bytes

theorem bytesOf_of_textOf {bytes : List UInt8} (decoded : textOf bytes = some text) :
    bytesOf text = bytes := by
  have same := congrArg (fun array => array.data.toList) (fromUTF8?_eq_some.mp decoded)
  rw [List.data_toByteArray] at same
  exact same.symm

theorem length_bytesOf (text : String) : (bytesOf text).length = text.utf8ByteSize := rfl

theorem bytesOf_eq_flatMap (text : String) :
    bytesOf text = text.toList.flatMap String.utf8EncodeChar := by
  have characters : text.toByteArray = text.toList.utf8Encode := by
    rw [← String.toByteArray_ofList, String.ofList_toList]
  unfold bytesOf
  rw [characters, List.utf8Encode, List.data_toByteArray]

/-- A byte below 128 is the encoding of the character of this number. -/
theorem toNat_of_mem_encode {character : Char} {byte : UInt8} (low : byte.toNat < 128)
    (listed : byte ∈ String.utf8EncodeChar character) : character.val.toNat = byte.toNat := by
  have value : forall number : Nat, number < 256 -> byte = UInt8.ofNat number ->
      byte.toNat = number := by
    rintro number bound rfl
    exact UInt8.toNat_ofNat_of_lt' bound
  -- the bytes of a longer encoding are 128 at least
  have high : forall number : Nat, 128 ≤ number -> number < 256 -> byte ≠ UInt8.ofNat number := by
    intro number large bound same
    have equal := value number bound same
    omega
  unfold String.utf8EncodeChar at listed
  dsimp only at listed
  split at listed
  · exact (value _ (by omega) (List.mem_singleton.mp listed)).symm
  · exfalso
    split at listed
    · simp only [List.mem_cons, List.not_mem_nil, or_false] at listed
      rcases listed with byte | byte <;> exact high _ (by omega) (by omega) byte
    · split at listed
      · simp only [List.mem_cons, List.not_mem_nil, or_false] at listed
        rcases listed with byte | byte | byte <;> exact high _ (by omega) (by omega) byte
      · simp only [List.mem_cons, List.not_mem_nil, or_false] at listed
        rcases listed with byte | byte | byte | byte <;> exact high _ (by omega) (by omega) byte

/-- Only a line feed is encoded with the byte of a line feed. -/
theorem feed_of_mem_encode {character : Char} (listed : 10 ∈ String.utf8EncodeChar character) :
    character = '\n' :=
  Char.ext (UInt32.toNat_inj.mp (toNat_of_mem_encode (by decide) listed))

/-- Only a carriage return is encoded with the byte of a carriage return. -/
theorem return_of_mem_encode {character : Char} (listed : 13 ∈ String.utf8EncodeChar character) :
    character = '\r' :=
  Char.ext (UInt32.toNat_inj.mp (toNat_of_mem_encode (by decide) listed))

theorem utf8EncodeChar_ne_nil (character : Char) : String.utf8EncodeChar character ≠ [] := by
  intro empty
  have size := String.length_utf8EncodeChar character
  rw [empty] at size
  exact absurd size.symm (Nat.pos_iff_ne_zero.mp character.utf8Size_pos)

/-- The bytes of a text end with a carriage return where the text does. -/
theorem getLast?_bytesOf : (bytesOf text).getLast? = some 13 <-> text.toList.getLast? = some '\r' := by
  rw [bytesOf_eq_flatMap]
  rcases List.eq_nil_or_concat text.toList with empty | ⟨front, final, characters⟩
  · rw [empty]
    simp
  · rw [characters, List.concat_eq_append, List.getLast?_concat, List.flatMap_append,
      List.flatMap_singleton, List.getLast?_append_of_ne_nil _ (utf8EncodeChar_ne_nil final)]
    constructor
    · intro last
      rw [return_of_mem_encode (List.mem_of_getLast? last)]
    · intro same
      cases same
      decide

theorem feed_notMem_bytesOf (single : '\n' ∉ text.toList) : 10 ∉ bytesOf text := by
  rw [bytesOf_eq_flatMap]
  intro listed
  rcases List.mem_flatMap.mp listed with ⟨character, among, encoded⟩
  rw [feed_of_mem_encode encoded] at among
  exact single among

theorem feed_mem_bytesOf (listed : '\n' ∈ text.toList) : 10 ∈ bytesOf text := by
  rw [bytesOf_eq_flatMap]
  exact List.mem_flatMap.mpr ⟨'\n', listed, by decide⟩

end Texts
end Collections
end RaftStore
