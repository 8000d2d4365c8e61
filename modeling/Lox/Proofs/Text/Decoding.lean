import Mathlib.Data.List.Forall2
import Lox.Proofs.Scanning.Characters

/-! Decoding and encoding undo each other. A whole unit is written with its own bytes, and the bytes
of a character are one whole unit; so a text is decoded from its bytes, and any bytes are decoded to
a text that is decoded to itself.
-/

namespace Lox.Text

-----------------------------------------------------------------------------------------
-- The bytes of a character in numbers
-----------------------------------------------------------------------------------------

/-- A byte that continues a character. -/
def Continues (byte : UInt8) : Prop := 0x80 ≤ byte.toNat ∧ byte.toNat < 0xC0

/-- The bytes of a character, by their number. The shortest form is required, and surrogates are no
characters.
-/
inductive Whole : List UInt8 → Prop
  | one {a} (first : a.toNat < 0x80) : Whole [a]
  | two {a b} (first : 0xC2 ≤ a.toNat ∧ a.toNat < 0xE0) (second : Continues b) : Whole [a, b]
  | three {a b c} (first : 0xE0 ≤ a.toNat ∧ a.toNat < 0xF0) (second : Continues b)
    (shortest : a.toNat = 0xE0 → 0xA0 ≤ b.toNat) (scalar : a.toNat = 0xED → b.toNat < 0xA0)
    (third : Continues c)
    : Whole [a, b, c]
  | four {a b c d} (first : 0xF0 ≤ a.toNat ∧ a.toNat < 0xF5) (second : Continues b)
    (shortest : a.toNat = 0xF0 → 0x90 ≤ b.toNat) (inRange : a.toNat = 0xF4 → b.toNat < 0x90)
    (third : Continues c) (fourth : Continues d)
    : Whole [a, b, c, d]

/-- The bytes of a character with a code point. -/
def bytesOf (point : Nat) : List UInt8 :=
  if point < 0x80 then [.ofNat point]
  else if point < 0x800 then [.ofNat (point / 64 + 0xC0), .ofNat (point % 64 + 0x80)]
  else if point < 0x10000 then
    [.ofNat (point / 4096 + 0xE0), .ofNat (point / 64 % 64 + 0x80), .ofNat (point % 64 + 0x80)]
  else
    [.ofNat (point / 262144 + 0xF0), .ofNat (point / 4096 % 64 + 0x80),
      .ofNat (point / 64 % 64 + 0x80), .ofNat (point % 64 + 0x80)]

theorem toNat_char_lt (char : Char) : char.toNat < 0x110000 := by
  rcases char.valid with low | high <;> simp at * <;> omega

theorem utf8EncodeChar_eq (char : Char) : String.utf8EncodeChar char = bytesOf char.toNat := by
  have small := toNat_char_lt char
  unfold String.utf8EncodeChar bytesOf
  simp only [Char.toNat_val, Nat.lt_succ_iff.symm, Nat.succ_eq_add_one]
  split_ifs with one two three
  · rfl
  · rw [Nat.mod_eq_of_lt (by omega)]
  · rw [Nat.mod_eq_of_lt (by omega : char.toNat / 4096 < 16)]
  · rw [Nat.mod_eq_of_lt (by omega : char.toNat / 262144 < 8)]

/-- The bytes of a character are whole, by cases of their number. -/
theorem whole_bytesOf {point : Nat} (valid : point.isValidChar) : Whole (bytesOf point) := by
  unfold bytesOf
  unfold Nat.isValidChar at valid
  split_ifs with one two three
  · exact .one (by simp; omega)
  · exact .two (by simp; omega) (by simp [Continues]; omega)
  · exact .three (by simp; omega) (by simp [Continues]; omega) (by simp; omega) (by simp; omega)
      (by simp [Continues]; omega)
  · exact .four (by simp; omega) (by simp [Continues]; omega) (by simp; omega) (by simp; omega)
      (by simp [Continues]; omega) (by simp [Continues]; omega)

theorem codePoint_bytesOf {point : Nat} (valid : point.isValidChar)
    : codePoint (bytesOf point) = point := by
  unfold bytesOf
  unfold Nat.isValidChar at valid
  split_ifs with one two three <;> simp [codePoint] <;> omega

/-- Whole bytes are those of the code point that they are decoded to, by cases of their number. -/
theorem Whole.bytesOf_codePoint {bytes : List UInt8} (h : Whole bytes)
    : (codePoint bytes).isValidChar ∧ bytesOf (codePoint bytes) = bytes := by
  unfold bytesOf Nat.isValidChar
  cases h with
  | @one a first =>
      have point : codePoint [a] = a.toNat := rfl
      rw [point, if_pos first, UInt8.ofNat_toNat]
      exact ⟨by omega, rfl⟩
  | @two a b first second =>
      unfold Continues at second
      have point : codePoint [a, b] = (a.toNat - 0xC0) * 64 + (b.toNat - 0x80) := by
        simp [codePoint]
        omega
      rw [point, if_neg (by omega), if_pos (by omega)]
      simp only [List.cons.injEq, ← UInt8.toNat_inj, UInt8.toNat_ofNat', and_true]
      omega
  | @three a b c first second shortest scalar third =>
      unfold Continues at second third
      have point : codePoint [a, b, c]
          = (a.toNat - 0xE0) * 4096 + (b.toNat - 0x80) * 64 + (c.toNat - 0x80) := by
        simp [codePoint]
        omega
      rw [point, if_neg (by omega), if_neg (by omega), if_pos (by omega)]
      simp only [List.cons.injEq, ← UInt8.toNat_inj, UInt8.toNat_ofNat', and_true]
      omega
  | @four a b c d first second shortest inRange third fourth =>
      unfold Continues at second third fourth
      have point : codePoint [a, b, c, d]
          = (a.toNat - 0xF0) * 262144 + (b.toNat - 0x80) * 4096 + (c.toNat - 0x80) * 64
            + (d.toNat - 0x80) := by
        simp [codePoint]
        omega
      rw [point, if_neg (by omega), if_neg (by omega), if_neg (by omega)]
      simp only [List.cons.injEq, ← UInt8.toNat_inj, UInt8.toNat_ofNat', and_true]
      omega

-----------------------------------------------------------------------------------------
-- What the decoder takes
-----------------------------------------------------------------------------------------

/-- The byte is one that is expected. -/
def Meets (range : ByteRange) (byte : UInt8) : Prop := range.has byte = true

/-- What the second byte of a character of three bytes has to lie in. -/
def secondOfThree (first : UInt8) : ByteRange :=
  ⟨if first = 0xE0 then 0xA0 else 0x80, if first = 0xED then 0x9F else 0xBF⟩

/-- What the second byte of a character of four bytes has to lie in. -/
def secondOfFour (first : UInt8) : ByteRange :=
  ⟨if first = 0xF0 then 0x90 else 0x80, if first = 0xF4 then 0x8F else 0xBF⟩

theorem expectedAfter_eq (first : UInt8)
    : expectedAfter first
      = if first.toNat < 0x80 then some []
        else if first.toNat < 0xC2 then none
        else if first.toNat < 0xE0 then some [continuation]
        else if first.toNat < 0xF0 then some [secondOfThree first, continuation]
        else if first.toNat < 0xF5 then some [secondOfFour first, continuation, continuation]
        else none := by
  decide +revert +kernel

theorem meets_continuation {byte : UInt8} : Meets continuation byte ↔ Continues byte := by
  simp only [Meets, ByteRange.has, continuation, Continues, Bool.and_eq_true, decide_eq_true_eq,
    UInt8.le_iff_toNat_le]
  simp
  omega

theorem meets_secondOfThree {first byte : UInt8}
    : Meets (secondOfThree first) byte
      ↔ Continues byte
        ∧ (first.toNat = 0xE0 → 0xA0 ≤ byte.toNat)
        ∧ (first.toNat = 0xED → byte.toNat < 0xA0) := by
  simp only [Meets, ByteRange.has, secondOfThree, Continues, Bool.and_eq_true, decide_eq_true_eq,
    UInt8.le_iff_toNat_le, ← UInt8.toNat_inj]
  split_ifs <;> simp_all <;> omega

theorem meets_secondOfFour {first byte : UInt8}
    : Meets (secondOfFour first) byte
      ↔ Continues byte
        ∧ (first.toNat = 0xF0 → 0x90 ≤ byte.toNat)
        ∧ (first.toNat = 0xF4 → byte.toNat < 0x90) := by
  simp only [Meets, ByteRange.has, secondOfFour, Continues, Bool.and_eq_true, decide_eq_true_eq,
    UInt8.le_iff_toNat_le, ← UInt8.toNat_inj]
  split_ifs <;> simp_all <;> omega

/-- A first byte and those that it asks for are whole bytes, and there are no others. -/
theorem whole_iff {first : UInt8} {more : List UInt8}
    : Whole (first :: more)
      ↔ ∃ ranges, expectedAfter first = some ranges ∧ ranges.Forall₂ Meets more := by
  rw [expectedAfter_eq]
  constructor
  · intro whole
    cases whole with
    | one size =>
        rw [if_pos size]
        exact ⟨_, rfl, .nil⟩
    | two size second =>
        rw [if_neg (by omega), if_neg (by omega), if_pos size.2]
        exact ⟨_, rfl, .cons (meets_continuation.mpr second) .nil⟩
    | three size second shortest scalar third =>
        rw [if_neg (by omega), if_neg (by omega), if_neg (by omega), if_pos size.2]
        exact ⟨_, rfl, .cons (meets_secondOfThree.mpr ⟨second, shortest, scalar⟩)
          (.cons (meets_continuation.mpr third) .nil)⟩
    | four size second shortest inRange third fourth =>
        rw [if_neg (by omega), if_neg (by omega), if_neg (by omega), if_neg (by omega),
          if_pos size.2]
        exact ⟨_, rfl, .cons (meets_secondOfFour.mpr ⟨second, shortest, inRange⟩)
          (.cons (meets_continuation.mpr third) (.cons (meets_continuation.mpr fourth) .nil))⟩
  · intro asked
    obtain ⟨ranges, found, met⟩ := asked
    split_ifs at found with one none two three four <;> cases found
    · cases met
      exact .one one
    · rcases met with _ | ⟨second, _ | _⟩
      exact .two ⟨by omega, two⟩ (meets_continuation.mp second)
    · rcases met with _ | ⟨second, _ | ⟨third, _ | _⟩⟩
      obtain ⟨second, shortest, scalar⟩ := meets_secondOfThree.mp second
      exact .three ⟨by omega, three⟩ second shortest scalar (meets_continuation.mp third)
    · rcases met with _ | ⟨second, _ | ⟨third, _ | ⟨fourth, _ | _⟩⟩⟩
      obtain ⟨second, shortest, inRange⟩ := meets_secondOfFour.mp second
      exact .four ⟨by omega, four⟩ second shortest inRange (meets_continuation.mp third)
        (meets_continuation.mp fourth)

-----------------------------------------------------------------------------------------
-- The units of any bytes
-----------------------------------------------------------------------------------------

theorem continues_of_meets {first byte : UInt8} {ranges : List ByteRange} {range : ByteRange}
    (asked : expectedAfter first = some ranges) (member : range ∈ ranges) (meets : Meets range byte)
    : Continues byte := by
  rw [expectedAfter_eq] at asked
  split_ifs at asked <;> cases asked <;>
    simp only [List.mem_cons, List.not_mem_nil, or_false] at member
  · rcases member with rfl
    exact meets_continuation.mp meets
  · rcases member with rfl | rfl
    · exact (meets_secondOfThree.mp meets).1
    · exact meets_continuation.mp meets
  · rcases member with rfl | rfl | rfl
    · exact (meets_secondOfFour.mp meets).1
    · exact meets_continuation.mp meets
    · exact meets_continuation.mp meets

/-- Between two bytes, the decoder holds nothing or the beginning of a character, and expects the
rest of it.
-/
inductive Decoder.Sound : Decoder → Prop
  | fresh : Sound .fresh
  | begun {first more read range later}
    (asked : expectedAfter first = some (read ++ range :: later)) (met : read.Forall₂ Meets more)
    : Sound ⟨first :: more, range :: later⟩

/-- Units that are whole are whole characters, and the units are made of the bytes. -/
structure Covers (units : List TextUnit) (bytes : List UInt8) : Prop where
  whole : ∀ unit ∈ units, unit.form = .whole → Whole unit.bytes
  bytes : units.flatMap TextUnit.bytes = bytes

theorem covers_nil : Covers [] [] := ⟨List.forall_mem_nil _, rfl⟩

theorem Covers.append {front back : List TextUnit} {bytes more : List UInt8}
    (h : Covers front bytes) (next : Covers back more)
    : Covers (front ++ back) (bytes ++ more) := by
  refine ⟨List.forall_mem_append.mpr ⟨h.whole, next.whole⟩, ?_⟩
  rw [List.flatMap_append, h.bytes, next.bytes]

theorem Decoder.begin_sound (byte : UInt8)
    : ∃ units after,
        Decoder.begin byte = (units, after)
        ∧ after.Sound
        ∧ ∃ bytes, Covers units bytes ∧ [byte] = bytes ++ after.held := by
  unfold Decoder.begin
  cases asked : expectedAfter byte with
  | none =>
      refine ⟨_, _, rfl, .fresh, [byte], ⟨?_, rfl⟩, rfl⟩
      simp
  | some ranges =>
      cases ranges with
      | nil =>
          have whole : Whole [byte] := whole_iff.mpr ⟨[], asked, .nil⟩
          refine ⟨_, _, rfl, .fresh, [byte], ⟨?_, rfl⟩, rfl⟩
          simp [whole]
      | cons range later =>
          have waits : Decoder.Sound ⟨[byte], range :: later⟩ := by
            rw [← List.nil_append (range :: later)] at asked
            exact .begun asked .nil
          exact ⟨_, _, rfl, waits, [], covers_nil, rfl⟩

/-- A byte more leaves the decoder sound, by cases of what it holds. -/
theorem Decoder.Sound.next {decoder : Decoder} (h : decoder.Sound) (byte : UInt8)
    : ∃ units after,
        decoder.next byte = (units, after)
        ∧ after.Sound
        ∧ ∃ bytes, Covers units bytes ∧ decoder.held ++ [byte] = bytes ++ after.held := by
  cases h with
  | fresh => exact Decoder.begin_sound byte
  | @begun first more read range later asked met =>
      have further (meets : range.has byte = true)
          : (read ++ [range]).Forall₂ Meets (more ++ [byte]) :=
        List.rel_append met (.cons meets .nil)
      by_cases meets : range.has byte = true
      · cases later with
        | nil =>
            have whole : Whole (first :: (more ++ [byte])) :=
              whole_iff.mpr ⟨_, asked, further meets⟩
            refine ⟨[⟨first :: more ++ [byte], .whole⟩], .fresh, ?_, .fresh,
              first :: more ++ [byte], ⟨?_, by simp⟩, by simp [Decoder.fresh]⟩
            · simp [Decoder.next, meets]
            · simp [whole]
        | cons following later =>
            have asked : expectedAfter first = some ((read ++ [range]) ++ following :: later) := by
              simpa using asked
            refine ⟨[], ⟨first :: more ++ [byte], following :: later⟩, ?_,
              .begun asked (further meets), [], covers_nil, rfl⟩
            simp [Decoder.next, meets]
      · obtain ⟨units, after, begun, sound, bytes, covers, same⟩ := Decoder.begin_sound byte
        have broken : Covers [⟨first :: more, .broken⟩] (first :: more) := ⟨by simp, by simp⟩
        refine ⟨_, _, ?_, sound, _, broken.append covers, ?_⟩
        · simp [Decoder.next, meets, begun]
        · rw [same, List.append_assoc]

/-- The units cover what the decoder holds and all further bytes, by induction over these. -/
theorem Decoder.Sound.units {decoder : Decoder} (h : decoder.Sound) (bytes : List UInt8)
    : Covers (decoder.units bytes) (decoder.held ++ bytes) := by
  induction bytes generalizing decoder with
  | nil =>
      by_cases none : decoder.held = []
      · rw [Decoder.units, if_pos none, none]
        exact covers_nil
      · rw [Decoder.units, if_neg none]
        exact ⟨by simp, by simp⟩
  | cons byte rest ih =>
      obtain ⟨units, after, taken, sound, bytes, covers, same⟩ := h.next byte
      have all := covers.append (ih sound)
      rw [← List.append_assoc, ← same, List.append_assoc] at all
      rw [Decoder.units, taken]
      exact all

theorem covers_units (bytes : List UInt8) : Covers (units bytes) bytes :=
  Decoder.Sound.fresh.units bytes

-----------------------------------------------------------------------------------------
-- Where decoding can be cut
-----------------------------------------------------------------------------------------

theorem plain_not_continues {byte : UInt8} (plain : IsPlain byte) : ¬ Continues byte := by
  have size : byte.toNat < 0x80 := UInt8.lt_iff_toNat_lt.mp plain
  unfold Continues
  omega

theorem begin_of_plain {byte : UInt8} (plain : IsPlain byte)
    : Decoder.begin byte = ([⟨[byte], .whole⟩], .fresh) := by
  have size : byte.toNat < 0x80 := UInt8.lt_iff_toNat_lt.mp plain
  rw [Decoder.begin, expectedAfter_eq, if_pos size]

/-- The bytes that the decoder waits for complete the character. By induction over them. -/
theorem units_begun {held more : List UInt8} {range : ByteRange} {later : List ByteRange}
    (met : (range :: later).Forall₂ Meets more) (rest : List UInt8)
    : Decoder.units ⟨held, range :: later⟩ (more ++ rest)
      = ⟨held ++ more, .whole⟩ :: units rest := by
  induction later generalizing held more range with
  | nil =>
      rcases met with _ | ⟨meets, _ | _⟩
      have meets : range.has _ = true := meets
      simp [Decoder.units, Decoder.next, meets, units]
  | cons following later ih =>
      rcases met with _ | ⟨meets, met⟩
      have meets : range.has _ = true := meets
      simp [Decoder.units, Decoder.next, meets, ih met]

/-- Whole bytes are one unit, whatever follows them. -/
theorem Whole.units_append {bytes : List UInt8} (h : Whole bytes) (rest : List UInt8)
    : units (bytes ++ rest) = ⟨bytes, .whole⟩ :: units rest := by
  cases bytes with
  | nil => cases h
  | cons first more =>
      obtain ⟨ranges, asked, met⟩ := whole_iff.mp h
      cases met with
      | nil => simp [units, Decoder.units, Decoder.next, Decoder.fresh, Decoder.begin, asked]
      | cons meets met =>
          have begun := @units_begun [first] _ _ _ (.cons meets met) rest
          simp [units, Decoder.units, Decoder.next, Decoder.fresh, Decoder.begin, asked]
          exact begun

/-- A plain byte at the end is a character of its own, also after the beginning of another. By
induction over the bytes before it.
-/
theorem Decoder.Sound.map_char_units_concat {decoder : Decoder} (h : decoder.Sound)
    (bytes : List UInt8) {byte : UInt8} (plain : IsPlain byte)
    : (decoder.units (bytes ++ [byte])).map TextUnit.char
      = (decoder.units bytes).map TextUnit.char ++ [Char.ofNat byte.toNat] := by
  induction bytes generalizing decoder with
  | nil =>
      cases h with
      | fresh =>
          simp [Decoder.units, Decoder.next, Decoder.fresh, begin_of_plain plain, TextUnit.char,
            codePoint]
      | @begun first more read range later asked met =>
          have other : ¬ range.has byte = true := fun meets =>
            plain_not_continues plain (continues_of_meets asked (by simp) meets)
          simp [Decoder.units, Decoder.next, other, begin_of_plain plain, Decoder.fresh,
            TextUnit.char, codePoint]
  | cons next rest ih =>
      obtain ⟨units, after, taken, sound, _⟩ := h.next next
      rw [List.cons_append, Decoder.units, Decoder.units, taken]
      simp [ih sound]

theorem decodeLossy_concat (bytes : List UInt8) {byte : UInt8} (plain : IsPlain byte)
    : decodeLossy (bytes ++ [byte])
      = decodeLossy bytes ++ String.ofList [Char.ofNat byte.toNat] := by
  rw [decodeLossy, units, Decoder.Sound.fresh.map_char_units_concat bytes plain,
    String.ofList_append]
  rfl

theorem decodeLossy_cons {byte : UInt8} (plain : IsPlain byte) (bytes : List UInt8)
    : decodeLossy (byte :: bytes) = String.ofList [Char.ofNat byte.toNat] ++ decodeLossy bytes := by
  have whole : Whole [byte] := .one (UInt8.lt_iff_toNat_lt.mp plain)
  have first := whole.units_append bytes
  rw [List.singleton_append] at first
  rw [decodeLossy, first, List.map_cons, ← List.singleton_append, String.ofList_append]
  rfl

-----------------------------------------------------------------------------------------
-- Decoding what was encoded, and encoding what was decoded
-----------------------------------------------------------------------------------------

theorem whole_utf8EncodeChar (char : Char) : Whole (String.utf8EncodeChar char) := by
  rw [utf8EncodeChar_eq]
  exact whole_bytesOf char.valid

theorem char_utf8EncodeChar (char : Char)
    : TextUnit.char ⟨String.utf8EncodeChar char, .whole⟩ = char := by
  have valid : char.toNat.isValidChar := char.valid
  rw [utf8EncodeChar_eq]
  simp only [TextUnit.char, codePoint_bytesOf valid, Char.ofNat_toNat]

/-- A text is decoded from its bytes, by induction over its characters. -/
theorem decodeLossy_encode (text : String) : decodeLossy (encode text) = text := by
  have chars (all : List Char)
      : (units (all.flatMap String.utf8EncodeChar)).map TextUnit.char = all := by
    induction all with
    | nil => rfl
    | cons char rest ih =>
        rw [List.flatMap_cons, (whole_utf8EncodeChar char).units_append, List.map_cons,
          char_utf8EncodeChar, ih]
  rw [decodeLossy, encode_eq, chars, String.ofList_toList]

/-- A whole unit is written with its own bytes. -/
theorem Whole.utf8EncodeChar_char {unit : TextUnit} (h : Whole unit.bytes)
    (form : unit.form = .whole)
    : String.utf8EncodeChar unit.char = unit.bytes := by
  obtain ⟨valid, same⟩ := h.bytesOf_codePoint
  have point : (Char.ofNat (codePoint unit.bytes)).toNat = codePoint unit.bytes := by
    rw [Char.ofNat, dif_pos valid]
    rfl
  simp only [utf8EncodeChar_eq, TextUnit.char, form, point, same]

/-- The plain bytes in what any bytes are decoded to are among these. -/
theorem mem_of_mem_encode_decodeLossy {bytes : List UInt8} {byte : UInt8} (plain : IsPlain byte)
    (member : byte ∈ encode (decodeLossy bytes))
    : byte ∈ bytes := by
  have covers := covers_units bytes
  rw [decodeLossy, encode_ofList, List.flatMap_map] at member
  obtain ⟨unit, among, written⟩ := List.mem_flatMap.mp member
  have replaced (unfinished : unit.form ≠ .whole) : byte ∈ bytes := by
    have char : unit.char = '\uFFFD' := by
      unfold TextUnit.char
      split
      · exact absurd ‹_› unfinished
      · rfl
      · rfl
    rw [char] at written
    have large : ∀ byte ∈ String.utf8EncodeChar '\uFFFD', ¬ IsPlain byte := by decide +kernel
    exact absurd plain (large byte written)
  cases form : unit.form with
  | whole =>
      rw [(covers.whole unit among form).utf8EncodeChar_char form] at written
      rw [← covers.bytes]
      exact List.mem_flatMap.mpr ⟨unit, among, written⟩
  | broken | cutOff => exact replaced (by simp [form])

end Lox.Text
