import Mathlib.Data.FinEnum
import Lox.Text.Utf8

/-! The bytes of characters. A character is one plain byte, or a byte that starts it and bytes that
continue it; so a text can be cut wherever the next byte continues no character.
-/

namespace Lox.Text

-----------------------------------------------------------------------------------------
-- The bytes of a text
-----------------------------------------------------------------------------------------

/-- The loop over an array of bytes lists those from its index on, by induction over the loop. -/
private theorem toList_loop (bytes : ByteArray) (index : Nat) (done : List UInt8)
    : ByteArray.toList.loop bytes index done = done.reverse ++ bytes.data.toList.drop index := by
  induction index, done using ByteArray.toList.loop.induct bytes with
  | case1 index done inside ih =>
      have there : index < bytes.data.toList.length := by simpa using inside
      have byte : bytes.get! index = bytes.data.toList[index] := by
        simp only [ByteArray.get!, Array.getElem_toList]
        exact getElem!_pos bytes.data index inside
      rw [ByteArray.toList.loop, if_pos inside, ih, List.drop_eq_getElem_cons there]
      simp [byte]
  | case2 index done outside =>
      have past : bytes.data.toList.length ≤ index := by simpa using outside
      rw [ByteArray.toList.loop, if_neg outside, List.drop_eq_nil_of_le past, List.append_nil]

theorem encode_eq_toList (text : String) : encode text = text.toByteArray.data.toList :=
  toList_loop text.toByteArray 0 []

/-- A text is written character by character. -/
theorem encode_eq (text : String) : encode text = text.toList.flatMap String.utf8EncodeChar := by
  have bytes : text.toByteArray = (text.toList.flatMap String.utf8EncodeChar).toByteArray :=
    String.utf8Encode_toList.symm
  rw [encode_eq_toList, bytes, List.toList_data_toByteArray]

theorem encode_append (front back : String)
    : encode (front ++ back) = encode front ++ encode back := by
  rw [encode_eq, encode_eq, encode_eq, String.toList_append, List.flatMap_append]

theorem length_encode (text : String) : (encode text).length = text.utf8ByteSize := by
  rw [encode_eq_toList]
  rfl

theorem encode_ofList (chars : List Char)
    : encode (String.ofList chars) = chars.flatMap String.utf8EncodeChar := by
  rw [encode_eq, String.toList_ofList]

-----------------------------------------------------------------------------------------
-- The bytes of a character
-----------------------------------------------------------------------------------------

/-- A byte that is a character by itself. -/
def IsPlain (byte : UInt8) : Prop := byte < 0x80

instance : DecidablePred IsPlain := fun byte => inferInstanceAs (Decidable (byte < 0x80))

/-- The bytes of one character: one that continues none, and those that continue it. A plain byte
has none of these.
-/
structure IsCharacter (first : UInt8) (more : List UInt8) : Prop where
  starts : continuation.has first = false
  continues : ∀ byte ∈ more, continuation.has byte = true
  plain : IsPlain first → more = []

private theorem not_has_first (byte : UInt8)
    : byte.IsUTF8FirstByte → continuation.has byte = false := by
  decide +revert +kernel

private theorem has_low (byte : UInt8) : continuation.has (byte &&& 0x3f ||| 0x80) = true := by
  decide +revert +kernel

private theorem not_plain_high (byte : UInt8)
    : ¬ byte &&& 0x1f ||| 0xc0 < 0x80
      ∧ ¬ byte &&& 0x0f ||| 0xe0 < 0x80
      ∧ ¬ byte &&& 0x07 ||| 0xf0 < 0x80 := by
  decide +revert +kernel

/-- The bytes of a character, by cases of their number. -/
theorem exists_isCharacter (char : Char)
    : ∃ first more, String.utf8EncodeChar char = first :: more ∧ IsCharacter first more := by
  have first : (String.utf8EncodeChar char)[0]?.all (continuation.has · = false) := by
    rw [List.getElem?_eq_getElem (by simp [char.utf8Size_pos]), Option.all_some]
    exact decide_eq_true (not_has_first _ UInt8.isUTF8FirstByte_getElem_zero_utf8EncodeChar)
  rcases char.utf8Size_eq with size | size | size | size
  · rw [String.utf8EncodeChar_eq_singleton size] at first ⊢
    exact ⟨_, _, rfl, by simpa using first, by simp, fun _ => rfl⟩
  · rw [String.utf8EncodeChar_eq_cons_cons size] at first ⊢
    exact ⟨_, _, rfl, by simpa using first, by simp [has_low],
      fun plain => absurd plain (not_plain_high _).1⟩
  · rw [String.utf8EncodeChar_eq_cons_cons_cons size] at first ⊢
    exact ⟨_, _, rfl, by simpa using first, by simp [has_low],
      fun plain => absurd plain (not_plain_high _).2.1⟩
  · rw [String.utf8EncodeChar_eq_cons_cons_cons_cons size] at first ⊢
    exact ⟨_, _, rfl, by simpa using first, by simp [has_low],
      fun plain => absurd plain (not_plain_high _).2.2⟩

-----------------------------------------------------------------------------------------
-- Where a text can be cut
-----------------------------------------------------------------------------------------

/-- A byte that continues a character is not plain. -/
private theorem not_has_of_plain (byte : UInt8) : byte < 0x80 → continuation.has byte = false := by
  decide +revert +kernel

/-- The first bytes of a character, but not all of them, do not end with a plain byte. -/
theorem IsCharacter.not_plain {first byte : UInt8} {front back : List UInt8}
    (h : IsCharacter first (front ++ back)) (some : back ≠ [])
    (last : byte ∈ (first :: front).getLast?)
    : ¬ IsPlain byte := by
  intro plain
  rcases List.mem_cons.mp (List.mem_of_getLast? last) with rfl | inside
  · exact some (List.append_eq_nil_iff.mp (h.plain plain)).2
  · have continues := h.continues byte (List.mem_append_left _ inside)
    rw [not_has_of_plain byte plain] at continues
    cases continues

/-- Two parts of a text do not share a character: the first ends with a plain byte, or the second
does not begin with a byte that continues a character.
-/
def Parted (front back : List UInt8) : Prop :=
  (∃ byte ∈ front.getLast?, IsPlain byte) ∨ ∀ byte ∈ back.head?, continuation.has byte = false

/-- A text is cut between two characters where its parts do not share one. By induction over the
characters.
-/
theorem exists_append_of_parted {chars : List Char} {front back : List UInt8}
    (cut : chars.flatMap String.utf8EncodeChar = front ++ back) (parted : Parted front back)
    : ∃ before after,
        chars = before ++ after ∧ before.flatMap String.utf8EncodeChar = front := by
  induction chars generalizing front with
  | nil =>
      have none : front = [] := (List.append_eq_nil_iff.mp cut.symm).1
      exact ⟨[], [], rfl, none.symm⟩
  | cons char rest ih =>
      rcases exists_isCharacter char with ⟨first, more, written, character⟩
      cases front with
      | nil => exact ⟨[], char :: rest, rfl, rfl⟩
      | cons byte front =>
          simp only [List.flatMap_cons, written, List.cons_append, List.cons.injEq] at cut
          rcases cut with ⟨rfl, cut⟩
          rcases List.append_eq_append_iff.mp cut with ⟨later, rfl, rest_eq⟩ | ⟨left, rfl, rfl⟩
          · cases later with
            | nil => exact ⟨[char], rest, rfl, by simp [written]⟩
            | cons next later =>
                have ends : Parted (next :: later) back := by
                  apply parted.imp_left
                  rw [← List.cons_append, List.getLast?_append_of_ne_nil _ (List.cons_ne_nil _ _)]
                  exact id
                rcases ih rest_eq ends with ⟨before, after, rfl, same⟩
                exact ⟨char :: before, after, rfl, by simp [written, same]⟩
          · cases left with
            | nil => exact ⟨[char], rest, rfl, by simp [written]⟩
            | cons next left =>
                rcases parted with ⟨last, ends, plain⟩ | begins
                · exact absurd plain (character.not_plain (List.cons_ne_nil _ _) ends)
                · have continues := character.continues next (by simp)
                  rw [begins next rfl] at continues
                  cases continues

/-- Such a place in a text is a valid position in it. -/
theorem isValid_of_parted {text : String} {front back : List UInt8}
    (cut : encode text = front ++ back) (parted : Parted front back)
    : String.Pos.Raw.IsValid text ⟨front.length⟩ := by
  rw [encode_eq] at cut
  rcases exists_append_of_parted cut parted with ⟨before, after, chars, same⟩
  apply String.Pos.Raw.isValid_iff_exists_append.mpr
  refine ⟨String.ofList before, String.ofList after, ?_, ?_⟩
  · rw [← String.ofList_append, ← chars, String.ofList_toList]
  · apply String.Pos.Raw.ext
    rw [String.byteIdx_rawEndPos, ← length_encode, encode_ofList, same]

-----------------------------------------------------------------------------------------
-- Plain text
-----------------------------------------------------------------------------------------

private theorem expectedAfter_of_plain (byte : UInt8)
    : byte < 0x80 → expectedAfter byte = some [] := by
  decide +revert +kernel

private theorem utf8EncodeChar_of_plain (byte : UInt8)
    : byte < 0x80 → String.utf8EncodeChar (Char.ofNat byte.toNat) = [byte] := by
  decide +revert +kernel

/-- Plain bytes are decoded one by one, by induction over them. -/
theorem units_of_plain {bytes : List UInt8} (plain : ∀ byte ∈ bytes, IsPlain byte)
    : units bytes = bytes.map fun byte => ⟨[byte], .whole⟩ := by
  induction bytes with
  | nil => rfl
  | cons byte rest ih =>
      rw [List.forall_mem_cons] at plain
      have taken : Decoder.fresh.next byte = ([⟨[byte], .whole⟩], .fresh) := by
        simp [Decoder.next, Decoder.fresh, Decoder.begin, expectedAfter_of_plain byte plain.1]
      rw [units, Decoder.units, taken]
      exact congrArg (_ :: ·) (ih plain.2)

/-- What plain bytes are decoded to is written with them again. -/
theorem encode_decodeLossy {bytes : List UInt8} (plain : ∀ byte ∈ bytes, IsPlain byte)
    : encode (decodeLossy bytes) = bytes := by
  rw [decodeLossy, units_of_plain plain, encode_ofList]
  induction bytes with
  | nil => rfl
  | cons byte rest ih =>
      rw [List.forall_mem_cons] at plain
      have written := utf8EncodeChar_of_plain byte plain.1
      simp only [List.map_cons, List.flatMap_cons, ih plain.2]
      simp [TextUnit.char, codePoint, written]

end Lox.Text
