import Lox.Proofs.Text.Decoding

/-! The order of texts is that of their bytes. The first byte of a character tells how many there
are, and each byte counts for more than all those after it.
-/

namespace Lox.Text

/-- At the first place where two lists of bytes differ, the byte of the first one is smaller. -/
inductive Below : List UInt8 → List UInt8 → Prop
  | here {a b : UInt8} {front back : List UInt8} (less : a.toNat < b.toNat)
    : Below (a :: front) (b :: back)
  | later {a : UInt8} {front back : List UInt8} (below : Below front back)
    : Below (a :: front) (a :: back)

theorem below_cons {a b : UInt8} {front back : List UInt8}
    : Below (a :: front) (b :: back)
      ↔ a.toNat < b.toNat ∨ (a.toNat = b.toNat ∧ Below front back) := by
  constructor
  · intro h
    cases h with
    | here less => exact .inl less
    | later below => exact .inr ⟨rfl, below⟩
  · intro h
    obtain less | ⟨same, below⟩ := h
    · exact .here less
    · exact UInt8.toNat_inj.1 same ▸ .later below

theorem not_below_nil {bytes : List UInt8} : ¬ Below bytes [] := nofun

/-- What follows after the place does not matter, by induction over the bytes before it. -/
theorem Below.append {front back : List UInt8} (h : Below front back) (more rest : List UInt8)
    : front ++ more < back ++ rest := by
  induction h with
  | here less => exact List.cons_lt_cons_iff.2 (.inl less)
  | later _ ih => exact List.cons_lt_cons_iff.2 (.inr ⟨rfl, ih⟩)

/-- Greater characters have greater bytes, by cases of how many there are. -/
theorem below_bytesOf {point other : Nat} (less : point < other) (inRange : other < 0x110000)
    : Below (bytesOf point) (bytesOf other) := by
  unfold bytesOf
  split_ifs <;>
    simp (disch := omega) only [below_cons, UInt8.toNat_ofNat', Nat.mod_eq_of_lt, not_below_nil,
      and_false, or_false]
  all_goals omega

theorem below_utf8EncodeChar {char other : Char} (less : char < other)
    : Below (String.utf8EncodeChar char) (String.utf8EncodeChar other) := by
  rw [utf8EncodeChar_eq, utf8EncodeChar_eq]
  exact below_bytesOf less (toNat_char_lt other)

/-- A smaller text has smaller bytes, by induction over the characters. -/
theorem encode_lt_of_lt {text other : String} (less : text < other)
    : encode text < encode other := by
  rw [encode_eq, encode_eq]
  have less := String.lt_iff.1 less
  generalize text.toList = front at less
  generalize other.toList = back at less
  induction less with
  | @nil char rest =>
      have filled : String.utf8EncodeChar char ≠ [] := String.utf8EncodeChar_ne_nil
      obtain ⟨first, more, same⟩ := List.exists_cons_of_ne_nil filled
      rw [List.flatMap_nil, List.flatMap_cons, same, List.cons_append]
      exact List.nil_lt_cons ..
  | rel less => exact (below_utf8EncodeChar less).append _ _
  | cons _ ih => exact List.append_left_lt ih

/-- Texts are in the order of their bytes. -/
theorem encode_lt_encode {text other : String}
    : encode text < encode other ↔ text < other := by
  refine ⟨fun less => ?_, encode_lt_of_lt⟩
  obtain below | same | above := Std.lt_trichotomy text other
  · exact below
  · exact absurd (same ▸ less) (List.lt_irrefl _)
  · exact absurd less (List.lt_asymm (encode_lt_of_lt above))

end Lox.Text
