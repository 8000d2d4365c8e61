import Mathlib.Data.List.TakeWhile
import Lox.Proofs.Scanning.Characters
import Lox.Proofs.Scanning.Reference

/-! The classes of lexemes. The first byte of a lexeme tells its class, and its bytes tell what it
is a token of.
-/

namespace Lox.Lexer

-----------------------------------------------------------------------------------------
-- Runs of bytes
-----------------------------------------------------------------------------------------

/-- A run of bytes of a class is over here: the source goes on with a byte of another, or ends. -/
def Ends (test : UInt8 → Bool) (rest : List UInt8) : Prop := ∀ byte ∈ rest.head?, ¬ test byte

section Runs

variable {test : UInt8 → Bool} {run rest : List UInt8}

theorem takeWhile_run (all : ∀ byte ∈ run, test byte) (ends : Ends test rest)
    : (run ++ rest).takeWhile test = run := by
  rw [List.takeWhile_append_of_pos all]
  cases rest with
  | nil => simp
  | cons byte rest => simp [ends byte rfl]

theorem dropWhile_run (all : ∀ byte ∈ run, test byte) (ends : Ends test rest)
    : (run ++ rest).dropWhile test = rest := by
  rw [List.dropWhile_append_of_pos all]
  cases rest with
  | nil => rfl
  | cons byte rest => simp [ends byte rfl]

/-- Every source goes on with a run of each class, which may be empty. -/
theorem exists_run (test : UInt8 → Bool) (bytes : List UInt8)
    : ∃ run rest, bytes = run ++ rest ∧ (∀ byte ∈ run, test byte) ∧ Ends test rest := by
  refine ⟨bytes.takeWhile test, bytes.dropWhile test, ?_, ?_, ?_⟩
  · exact List.takeWhile_append_dropWhile.symm
  · exact fun byte => List.mem_takeWhile_imp
  · intro byte head
    have failed := List.head?_dropWhile_not test bytes
    rw [Option.mem_def.mp head] at failed
    simpa using failed

/-- A source goes on with one run of a class. -/
theorem run_unique {other after : List UInt8} (all : ∀ byte ∈ run, test byte)
    (ends : Ends test rest) (allOther : ∀ byte ∈ other, test byte) (endsAfter : Ends test after)
    (same : run ++ rest = other ++ after)
    : run = other ∧ rest = after := by
  constructor
  · rw [← takeWhile_run all ends, same, takeWhile_run allOther endsAfter]
  · rw [← dropWhile_run all ends, same, dropWhile_run allOther endsAfter]

/-- Bytes of a class at the start of a source are no more than the run there. -/
theorem length_le_run {part : List UInt8} (all : ∀ byte ∈ run, test byte) (ends : Ends test rest)
    (allPart : ∀ byte ∈ part, test byte) (start : part <+: run ++ rest)
    : part.length ≤ run.length := by
  rcases start with ⟨after, same⟩
  have taken := takeWhile_run all ends
  rw [← same, List.takeWhile_append_of_pos allPart] at taken
  rw [← taken, List.length_append]
  exact Nat.le_add_right ..

/-- Where such bytes are followed by another, they are the run. -/
theorem run_eq_of_prefix {part after : List UInt8} {byte : UInt8}
    (all : ∀ byte ∈ run, test byte) (ends : Ends test rest) (allPart : ∀ byte ∈ part, test byte)
    (other : ¬ test byte) (start : part ++ byte :: after <+: run ++ rest)
    : part = run ∧ byte :: after <+: rest := by
  rcases start with ⟨last, same⟩
  rw [List.append_assoc] at same
  have endsPart : Ends test (byte :: after ++ last) := by simpa [Ends] using other
  rcases run_unique allPart endsPart all ends same with ⟨equal, remaining⟩
  exact ⟨equal, last, remaining⟩

end Runs

-----------------------------------------------------------------------------------------
-- Classes of bytes
-----------------------------------------------------------------------------------------

/-- A byte that a word starts with is none that a number, a string or a mark starts with. -/
theorem startsWord_apart (byte : UInt8)
    : startsWord byte = true
      → isDigit byte = false
        ∧ byte ≠ ascii '"'
        ∧ mark? byte = none
        ∧ isBlank byte = false
        ∧ byte ≠ ascii '\n'
        ∧ byte < 0x80 := by
  decide +revert +kernel

theorem isDigit_apart (byte : UInt8)
    : isDigit byte = true
      → startsWord byte = false
        ∧ byte ≠ ascii '"'
        ∧ mark? byte = none
        ∧ isBlank byte = false
        ∧ byte ≠ ascii '\n'
        ∧ byte ≠ ascii '.'
        ∧ byte < 0x80 := by
  decide +revert +kernel

theorem mark?_apart (byte : UInt8)
    : (mark? byte).isSome = true
      → startsWord byte = false
        ∧ isDigit byte = false
        ∧ byte ≠ ascii '"'
        ∧ isBlank byte = false
        ∧ byte ≠ ascii '\n'
        ∧ byte < 0x80 := by
  decide +revert +kernel

theorem continuesWord_plain (byte : UInt8) : continuesWord byte = true → byte < 0x80 := by
  decide +revert +kernel

-----------------------------------------------------------------------------------------
-- Words
-----------------------------------------------------------------------------------------

instance : DecidablePred IsWord
  | [] => inferInstanceAs (Decidable False)
  | first :: rest =>
    inferInstanceAs (Decidable (startsWord first = true ∧ ∀ byte ∈ rest, continuesWord byte = true))

theorem isWord_keyword (word : Keyword) : IsWord (Text.encode word.text) := by
  cases word <;> decide +kernel

theorem decodeLossy_keyword (word : Keyword)
    : Text.decodeLossy (Text.encode word.text) = word.text := by
  cases word <;> decide +kernel

theorem IsWord.plain {bytes : List UInt8} (h : IsWord bytes)
    : ∀ byte ∈ bytes, Text.IsPlain byte := by
  cases bytes with
  | nil => exact h.elim
  | cons first rest =>
      rw [List.forall_mem_cons]
      exact ⟨(startsWord_apart first h.1).2.2.2.2.2,
        fun byte member => continuesWord_plain byte (h.2 byte member)⟩

/-- A word is decoded to the text of a keyword just if it is written like it. -/
theorem IsWord.decodeLossy_eq_iff {bytes : List UInt8} (h : IsWord bytes) (word : Keyword)
    : Text.decodeLossy bytes = word.text ↔ bytes = Text.encode word.text := by
  constructor
  · intro same
    rw [← same, Text.encode_decodeLossy h.plain]
  · intro same
    rw [same, decodeLossy_keyword]

/-- A word is the keyword that it is written like, and a name if there is none. -/
theorem IsWord.lexeme {bytes : List UInt8} (h : IsWord bytes) : Lexeme bytes (wordKind bytes) := by
  unfold wordKind Keyword.ofText?
  split
  · next word found =>
      have text := List.find?_some found
      rw [(h.decodeLossy_eq_iff word).mp (of_decide_eq_true text).symm]
      exact .keyword word
  · next missing =>
      refine .identifier h ?_
      intro word same
      apply List.find?_eq_none.mp missing word (by cases word <;> decide)
      exact decide_eq_true ((h.decodeLossy_eq_iff word).mpr same).symm

theorem wordKind_keyword (word : Keyword) : wordKind (Text.encode word.text) = .keyword word := by
  have found : Keyword.ofText? word.text = some word := by cases word <;> decide +kernel
  rw [wordKind, decodeLossy_keyword, found]

theorem IsWord.wordKind_eq_identifier {bytes : List UInt8} (h : IsWord bytes)
    (free : ∀ keyword : Keyword, bytes ≠ Text.encode keyword.text)
    : wordKind bytes = .identifier := by
  have missing : Keyword.ofText? (Text.decodeLossy bytes) = none := by
    apply List.find?_eq_none.mpr
    intro word _ same
    exact free word ((h.decodeLossy_eq_iff word).mp (of_decide_eq_true same).symm)
  rw [wordKind, missing]

-----------------------------------------------------------------------------------------
-- Marks
-----------------------------------------------------------------------------------------

theorem encode_of_mark? {first : UInt8} {sign : Mark} (h : mark? first = some sign)
    : Text.encode sign.text = [first] := by
  have all : (mark? first).all fun sign => Text.encode sign.text = [first] := by
    clear h
    decide +revert +kernel
  rw [h, Option.all_some] at all
  exact of_decide_eq_true all

theorem encode_of_withEqual? {first : UInt8} {sign : Mark}
    (h : (mark? first).bind withEqual? = some sign)
    : Text.encode sign.text = [first, ascii '='] := by
  have all
      : ((mark? first).bind withEqual?).all fun sign =>
          Text.encode sign.text = [first, ascii '='] := by
    clear h
    decide +revert +kernel
  rw [h, Option.all_some] at all
  exact of_decide_eq_true all

/-- A mark is one byte, or one byte and an equals sign. -/
theorem text_mark (sign : Mark)
    : ∃ first,
        Text.encode sign.text = [first] ∧ mark? first = some sign
        ∨ Text.encode sign.text = [first, ascii '=']
          ∧ (mark? first).bind withEqual? = some sign := by
  refine ⟨(Text.encode sign.text).headD 0, ?_⟩
  cases sign <;> decide +kernel

/-- What the bytes of a mark are, from its first one on. -/
theorem of_encode_mark {sign : Mark} {first : UInt8} {more : List UInt8}
    (h : Text.encode sign.text = first :: more)
    : more = [] ∧ mark? first = some sign
      ∨ more = [ascii '='] ∧ (mark? first).bind withEqual? = some sign := by
  rcases text_mark sign with ⟨byte, ⟨written, known⟩ | ⟨written, known⟩⟩
  · rw [written, List.cons.injEq] at h
    rcases h with ⟨rfl, rfl⟩
    exact .inl ⟨rfl, known⟩
  · rw [written, List.cons.injEq] at h
    rcases h with ⟨rfl, rfl⟩
    exact .inr ⟨rfl, known⟩

theorem isSome_mark?_of_encode {sign : Mark} {first : UInt8} {more : List UInt8}
    (h : Text.encode sign.text = first :: more)
    : (mark? first).isSome := by
  rcases of_encode_mark h with ⟨_, known⟩ | ⟨_, known⟩
  · simp [known]
  · cases found : mark? first with
    | none => simp [found] at known
    | some short => rfl

-----------------------------------------------------------------------------------------
-- Numbers
-----------------------------------------------------------------------------------------

theorem ascii_dot : isDigit (ascii '.') = false := by decide

theorem numberValue_whole {digits : List UInt8} (h : IsDigits digits)
    : numberValue digits = .ofScientific (digitsValue digits) true 0 := by
  have all := List.filter_eq_self.mpr h.digits
  have run : digits.takeWhile isDigit = digits := List.takeWhile_eq_self_iff.mpr h.digits
  simp [numberValue, all, run]

theorem numberValue_decimal {whole part : List UInt8} (whole_digits : IsDigits whole)
    (part_digits : IsDigits part)
    : numberValue (whole ++ ascii '.' :: part)
      = .ofScientific (digitsValue (whole ++ part)) true part.length := by
  have ends : Ends isDigit (ascii '.' :: part) := by simp [Ends, ascii_dot]
  have run := takeWhile_run whole_digits.digits ends
  have digits : (whole ++ ascii '.' :: part).filter isDigit = whole ++ part := by
    rw [List.filter_append, List.filter_cons, ascii_dot,
      List.filter_eq_self.mpr whole_digits.digits, List.filter_eq_self.mpr part_digits.digits]
    rfl
  have fraction : (whole ++ ascii '.' :: part).length - whole.length - 1 = part.length := by
    simp
  rw [numberValue, run, digits, fraction]

-----------------------------------------------------------------------------------------
-- What the first byte tells
-----------------------------------------------------------------------------------------

/-- A lexeme and what it is, by the class of its first byte. -/
inductive Classified (first : UInt8) (more : List UInt8) : TokenKind → Prop
  | word (starts : startsWord first) (h : IsWord (first :: more))
    : Classified first more (wordKind (first :: more))
  | whole (starts : isDigit first) (h : IsDigits (first :: more))
    : Classified first more (.number (numberValue (first :: more)))
  | decimal {whole part} (starts : isDigit first) (written : more = whole ++ ascii '.' :: part)
    (whole_digits : ∀ byte ∈ whole, isDigit byte) (part_digits : IsDigits part)
    : Classified first more (.number (numberValue (first :: more)))
  | string {content} (starts : first = ascii '"') (written : more = content ++ [ascii '"'])
    (closed : ascii '"' ∉ content)
    : Classified first more (.string (Text.decodeLossy content))
  | mark {sign} (starts : (mark? first).isSome) (written : Text.encode sign.text = first :: more)
    : Classified first more (.mark sign)

/-- Every lexeme is of some class, by cases of what it is a lexeme of. -/
theorem Lexeme.classified {first : UInt8} {more : List UInt8} {kind : TokenKind}
    (h : Lexeme (first :: more) kind)
    : Classified first more kind := by
  generalize same : first :: more = bytes at h
  cases h with
  | mark sign => exact .mark (isSome_mark?_of_encode same.symm) same.symm
  | keyword word =>
      have isWord := isWord_keyword word
      rw [← wordKind_keyword, ← same]
      rw [← same] at isWord
      exact .word isWord.1 isWord
  | identifier isWord free =>
      rw [← isWord.wordKind_eq_identifier free, ← same]
      rw [← same] at isWord
      exact .word isWord.1 isWord
  | whole digits =>
      rw [← numberValue_whole digits, ← same]
      rw [← same] at digits
      exact .whole (digits.digits first (List.mem_cons_self ..)) digits
  | @decimal whole part whole_digits part_digits =>
      rw [← numberValue_decimal whole_digits part_digits, ← same]
      cases whole with
      | nil => exact absurd rfl whole_digits.some
      | cons digit whole =>
          rw [List.cons_append, List.cons.injEq] at same
          rcases same with ⟨rfl, rfl⟩
          have all := List.forall_mem_cons.mp whole_digits.digits
          exact .decimal all.1 rfl all.2 part_digits
  | string closed =>
      rw [List.cons.injEq] at same
      exact .string same.1 same.2 closed

namespace Classified

variable {first : UInt8} {more : List UInt8} {kind : TokenKind}

theorem of_word (h : Classified first more kind) (starts : startsWord first)
    : IsWord (first :: more) := by
  have apart := startsWord_apart first starts
  cases h with
  | word _ isWord => exact isWord
  | whole digit | decimal digit => simp [apart] at digit
  | string quote => exact absurd quote apart.2.1
  | mark found => simp [apart] at found

/-- The bytes after the first digit are digits, or go on with a point and digits. -/
theorem of_digit (h : Classified first more kind) (starts : isDigit first)
    : (∀ byte ∈ more, isDigit byte)
      ∨ ∃ whole part,
          more = whole ++ ascii '.' :: part
          ∧ (∀ byte ∈ whole, isDigit byte)
          ∧ IsDigits part := by
  have apart := isDigit_apart first starts
  cases h with
  | word letter => simp [apart] at letter
  | whole _ digits => exact .inl (List.forall_mem_cons.mp digits.digits).2
  | decimal _ written digits part => exact .inr ⟨_, _, written, digits, part⟩
  | string quote => exact absurd quote apart.2.1
  | mark found => simp [apart] at found

theorem of_quote (h : Classified first more kind) (starts : first = ascii '"')
    : ∃ content, more = content ++ [ascii '"'] ∧ ascii '"' ∉ content := by
  subst starts
  cases h with
  | word letter => cases letter
  | whole digit | decimal digit => cases digit
  | string _ written closed => exact ⟨_, written, closed⟩
  | mark found => cases found

theorem of_mark (h : Classified first more kind) (starts : (mark? first).isSome)
    : ∃ sign : Mark, Text.encode sign.text = first :: more := by
  have apart := mark?_apart first starts
  cases h with
  | word letter => simp [apart] at letter
  | whole digit | decimal digit => simp [apart] at digit
  | string quote => exact absurd quote apart.2.2.1
  | mark _ written => exact ⟨_, written⟩

end Classified

theorem Lexeme.ne_nil {bytes : List UInt8} {kind : TokenKind} (h : Lexeme bytes kind)
    : bytes ≠ [] := by
  cases h with
  | mark sign =>
      rcases text_mark sign with ⟨first, ⟨written, _⟩ | ⟨written, _⟩⟩ <;> simp [written]
  | keyword word => cases word <;> decide +kernel
  | identifier word => rintro rfl; exact word
  | whole digits => exact digits.some
  | decimal | string => simp

theorem IsDigits.plain {digits : List UInt8} (h : IsDigits digits)
    : ∀ byte ∈ digits, Text.IsPlain byte :=
  fun byte member => (isDigit_apart byte (h.digits byte member)).2.2.2.2.2.2

/-- A lexeme ends with a plain byte. -/
theorem Lexeme.ends_plain {bytes : List UInt8} {kind : TokenKind} (h : Lexeme bytes kind)
    : ∃ byte ∈ bytes.getLast?, Text.IsPlain byte := by
  have of_plain {bytes : List UInt8} (some : bytes ≠ []) (plain : ∀ byte ∈ bytes, Text.IsPlain byte)
      : ∃ byte ∈ bytes.getLast?, Text.IsPlain byte :=
    ⟨_, List.getLast?_eq_some_getLast some, plain _ (List.getLast_mem some)⟩
  cases h with
  | mark sign =>
      rcases text_mark sign with ⟨first, ⟨written, known⟩ | ⟨written, _⟩⟩
      · have plain := (mark?_apart first (by simp [known])).2.2.2.2.2
        exact ⟨first, by simp [written], plain⟩
      · exact ⟨ascii '=', by simp [written], by decide⟩
  | keyword word => exact of_plain (Lexeme.keyword word).ne_nil (isWord_keyword word).plain
  | identifier word free => exact of_plain (Lexeme.identifier word free).ne_nil word.plain
  | whole digits => exact of_plain digits.some digits.plain
  | decimal whole_digits part_digits =>
      rcases of_plain part_digits.some part_digits.plain with ⟨byte, last, plain⟩
      refine ⟨byte, ?_, plain⟩
      rw [List.getLast?_append_of_ne_nil _ (List.cons_ne_nil _ _), List.getLast?_cons, last]
      rfl
  | string closed => exact ⟨ascii '"', by simp [List.getLast?_cons], by decide⟩

end Lox.Lexer
