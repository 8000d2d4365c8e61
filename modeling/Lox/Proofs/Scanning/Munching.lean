import Lox.Proofs.Scanning.Comments
import Lox.Proofs.Scanning.Lexemes

/-! The scanner takes the longest lexeme. What it recognizes at a place is the one first part that
the reference has there.
-/

namespace Lox.Lexer

variable {first : UInt8} {rest tail more : List UInt8}

-----------------------------------------------------------------------------------------
-- What is recognized
-----------------------------------------------------------------------------------------

theorem recognize_blank (separates : isBlank first ∨ first = ascii '\n')
    : recognize first rest = (.gap, 0) := by
  simp [recognize, separates]

theorem recognize_word (starts : startsWord first) (all : ∀ byte ∈ tail, continuesWord byte)
    (ends : Ends continuesWord more)
    : recognize first (tail ++ more) = (.token (wordKind (first :: tail)), tail.length) := by
  have apart := startsWord_apart first starts
  simp [recognize, apart, starts, takeWhile_run all ends]

/-- The digits of a number that has no fraction. -/
theorem numberSize_whole (all : ∀ byte ∈ tail, isDigit byte) (ends : Ends isDigit more)
    (noPart : ∀ digit after, more = ascii '.' :: digit :: after → ¬ isDigit digit)
    : numberSize (tail ++ more) = tail.length := by
  rw [numberSize, takeWhile_run all ends, List.drop_left]
  split
  · next point digit after =>
      split
      · next decimal =>
          rw [Bool.and_eq_true, decide_eq_true_eq] at decimal
          rcases decimal with ⟨rfl, digits⟩
          exact absurd digits (noPart digit after rfl)
      · rfl
  · rfl

/-- A fraction belongs to the number. -/
theorem numberSize_decimal {part : List UInt8} (all : ∀ byte ∈ tail, isDigit byte)
    (digits : IsDigits part) (ends : Ends isDigit more)
    : numberSize (tail ++ ascii '.' :: (part ++ more)) = tail.length + 1 + part.length := by
  have point : Ends isDigit (ascii '.' :: (part ++ more)) := by simp [Ends, ascii_dot]
  rw [numberSize, takeWhile_run all point, List.drop_left]
  cases part with
  | nil => exact absurd rfl digits.some
  | cons digit part =>
      have run := takeWhile_run digits.digits ends
      have starts := digits.digits digit (List.mem_cons_self ..)
      rw [List.cons_append] at run ⊢
      simp [run, starts]

theorem recognize_number (starts : isDigit first) (size : numberSize (tail ++ more) = tail.length)
    : recognize first (tail ++ more)
      = (.token (.number (numberValue (first :: tail))), tail.length) := by
  have apart := isDigit_apart first starts
  simp [recognize, apart, starts, size]

private theorem forall_ne_iff {byte : UInt8} {bytes : List UInt8}
    : (∀ other ∈ bytes, (other != byte) = true) ↔ byte ∉ bytes := by
  simp only [bne_iff_ne]
  constructor
  · exact fun all member => all byte member rfl
  · rintro missing other member rfl
    exact missing member

theorem staysInString_iff {bytes : List UInt8}
    : (∀ byte ∈ bytes, staysInString byte) ↔ ascii '"' ∉ bytes :=
  forall_ne_iff

theorem staysOnLine_iff {bytes : List UInt8}
    : (∀ byte ∈ bytes, staysOnLine byte) ↔ ascii '\n' ∉ bytes :=
  forall_ne_iff

/-- A line is over where a newline stands or the source ends. -/
theorem ends_staysOnLine_iff : Ends staysOnLine rest ↔ ∀ byte ∈ rest.head?, byte = ascii '\n' := by
  simp [Ends, staysOnLine]

theorem quote_apart
    : isBlank (ascii '"') = false
      ∧ ascii '"' ≠ ascii '\n'
      ∧ startsWord (ascii '"') = false
      ∧ isDigit (ascii '"') = false := by
  decide

theorem recognize_string {content : List UInt8} (closed : ascii '"' ∉ content)
    : recognize (ascii '"') (content ++ ascii '"' :: rest)
      = (.token (.string (Text.decodeLossy content)), content.length + 1) := by
  have ends : Ends staysInString (ascii '"' :: rest) := by simp [Ends, staysInString]
  simp [recognize, quote_apart, takeWhile_run (staysInString_iff.mpr closed) ends]

theorem recognize_openString {text : List UInt8} (unclosed : ascii '"' ∉ text)
    : recognize (ascii '"') text = (.error .unterminatedString, text.length) := by
  have run := List.takeWhile_eq_self_iff.mpr (staysInString_iff.mpr unclosed)
  simp [recognize, quote_apart, run]

/-- The comment in a line goes up to its end. -/
theorem recognize_lineComment {text : List UInt8} (line : ascii '\n' ∉ text)
    (ends : ∀ byte ∈ more.head?, byte = ascii '\n')
    : recognize (ascii '/') (ascii '/' :: (text ++ more)) = (.gap, text.length + 1) := by
  have run := takeWhile_run (staysOnLine_iff.mpr line) (ends_staysOnLine_iff.mpr ends)
  have stays : staysOnLine (ascii '/') = true := by decide
  simp [recognize, mark?_apart (ascii '/') rfl, stays, run]

theorem recognize_blockComment {part : List UInt8} (closes : Closes 1 part)
    : recognize (ascii '/') (ascii '*' :: (part ++ more)) = (.gap, part.length + 1) := by
  have measured : commentSize? 1 1 (part ++ more) = some (1 + part.length) :=
    commentSize?_eq_some_iff.mpr ⟨part, more, rfl, rfl, closes⟩
  have other : ascii '*' ≠ ascii '/' := by decide
  simp [recognize, mark?_apart (ascii '/') rfl, other, measured, Nat.add_comm]

theorem recognize_openComment {text : List UInt8}
    (unclosed : ∀ part, part <+: text → ¬ Closes 1 part)
    : recognize (ascii '/') (ascii '*' :: text)
      = (.error .unterminatedComment, text.length + 1) := by
  have measured : commentSize? 1 1 text = none := by
    rw [Option.eq_none_iff_forall_ne_some]
    intro total found
    rcases commentSize?_eq_some_iff.mp found with ⟨part, after, rfl, _, closes⟩
    exact unclosed part (List.prefix_append _ _) closes
  have other : ascii '*' ≠ ascii '/' := by decide
  simp [recognize, mark?_apart (ascii '/') rfl, other, measured]

/-- No comment begins here. -/
structure NoComment (first : UInt8) (rest : List UInt8) : Prop where
  line : ¬ lineOpening <+: first :: rest
  block : ¬ blockOpening <+: first :: rest

theorem prefix_pair_iff {byte next : UInt8}
    : [byte, next] <+: first :: rest ↔ first = byte ∧ rest.head? = some next := by
  cases rest <;> simp [List.cons_prefix_cons, eq_comm]

theorem equal_apart : ascii '=' ≠ ascii '/' ∧ ascii '=' ≠ ascii '*' := by decide

theorem recognize_mark {sign : Mark} (found : mark? first = some sign)
    (noComment : NoComment first rest)
    (short : rest.head? = some (ascii '=') → withEqual? sign = none)
    : recognize first rest = (.token (.mark sign), 0) := by
  have apart := mark?_apart first (by simp [found])
  have line : ¬ (first = ascii '/' ∧ rest.head? = some (ascii '/')) :=
    fun both => noComment.line (prefix_pair_iff.mpr both)
  have block : ¬ (first = ascii '/' ∧ rest.head? = some (ascii '*')) :=
    fun both => noComment.block (prefix_pair_iff.mpr both)
  by_cases equal : rest.head? = some (ascii '=')
  · simp [recognize, apart, equal_apart, found, equal, short equal]
  · simp [recognize, apart, line, block, found, equal]

theorem recognize_longMark {sign : Mark} (found : (mark? first).bind withEqual? = some sign)
    : recognize first (ascii '=' :: rest) = (.token (.mark sign), 1) := by
  rcases Option.bind_eq_some_iff.mp found with ⟨short, known, longer⟩
  have apart := mark?_apart first (by simp [known])
  simp [recognize, apart, equal_apart, known, longer]

/-- A byte that nothing starts with. -/
structure StartsNothing (byte : UInt8) : Prop where
  blank : isBlank byte = false
  newline : byte ≠ ascii '\n'
  word : startsWord byte = false
  digit : isDigit byte = false
  quote : byte ≠ ascii '"'
  mark : mark? byte = none

theorem recognize_byte (nothing : StartsNothing first) (plain : first < 0x80)
    : recognize first rest
      = (.error (.unexpectedCharacter (Text.decodeLossy [first])), 0) := by
  have slash : first ≠ ascii '/' := by
    rintro rfl
    cases nothing.mark
  obtain ⟨blank, newline, word, digit, quote, mark⟩ := nothing
  simp [recognize, blank, newline, word, digit, quote, mark, slash, plain]

theorem recognize_character (nothing : StartsNothing first) (other : ¬ first < 0x80)
    (continues : ∀ byte ∈ tail, continuesCharacter byte) (ends : Ends continuesCharacter more)
    : recognize first (tail ++ more)
      = (.error (.unexpectedCharacter (Text.decodeLossy (first :: tail))), tail.length) := by
  have slash : first ≠ ascii '/' := by
    rintro rfl
    cases nothing.mark
  obtain ⟨blank, newline, word, digit, quote, mark⟩ := nothing
  simp [recognize, blank, newline, word, digit, quote, mark, slash, other,
    takeWhile_run continues ends]

-----------------------------------------------------------------------------------------
-- The longest lexeme
-----------------------------------------------------------------------------------------

/-- The lexeme that the source goes on with, by the class of its first byte, and why it is over. -/
inductive Munched (first : UInt8) (tail rest : List UInt8) : TokenKind → Prop
  | word (starts : startsWord first) (all : ∀ byte ∈ tail, continuesWord byte)
    (ends : Ends continuesWord rest)
    : Munched first tail rest (wordKind (first :: tail))
  | whole (starts : isDigit first) (all : ∀ byte ∈ tail, isDigit byte) (ends : Ends isDigit rest)
    (noPart : ∀ digit after, rest = ascii '.' :: digit :: after → ¬ isDigit digit)
    : Munched first tail rest (.number (numberValue (first :: tail)))
  | decimal {whole part} (starts : isDigit first) (written : tail = whole ++ ascii '.' :: part)
    (all : ∀ byte ∈ whole, isDigit byte) (digits : IsDigits part) (ends : Ends isDigit rest)
    : Munched first tail rest (.number (numberValue (first :: tail)))
  | string {content} (starts : first = ascii '"') (written : tail = content ++ [ascii '"'])
    (closed : ascii '"' ∉ content)
    : Munched first tail rest (.string (Text.decodeLossy content))
  | mark {sign} (written : tail = []) (found : mark? first = some sign)
    (noComment : NoComment first rest)
    (short : rest.head? = some (ascii '=') → withEqual? sign = none)
    : Munched first tail rest (.mark sign)
  | longMark {sign} (written : tail = [ascii '='])
    (found : (mark? first).bind withEqual? = some sign)
    : Munched first tail rest (.mark sign)

namespace Munched

variable {kind : TokenKind}

theorem recognize_eq (h : Munched first tail rest kind)
    : recognize first (tail ++ rest) = (.token kind, tail.length) := by
  cases h with
  | word starts all ends => exact recognize_word starts all ends
  | whole starts all ends noPart => exact recognize_number starts (numberSize_whole all ends noPart)
  | @decimal whole part starts written all digits ends =>
      subst written
      apply recognize_number starts
      rw [List.append_assoc, List.cons_append, numberSize_decimal all digits ends,
        List.length_append, List.length_cons]
      omega
  | string starts written closed =>
      subst starts written
      rw [List.append_assoc, List.length_append]
      exact recognize_string closed
  | mark written found noComment short =>
      subst written
      exact recognize_mark found noComment short
  | longMark written found =>
      subst written
      exact recognize_longMark found

theorem lexeme (h : Munched first tail rest kind) : Lexeme (first :: tail) kind := by
  cases h with
  | word starts all ends => exact IsWord.lexeme ⟨starts, all⟩
  | whole starts all ends noPart =>
      have digits : IsDigits (first :: tail) :=
        ⟨List.cons_ne_nil _ _, List.forall_mem_cons.mpr ⟨starts, all⟩⟩
      rw [numberValue_whole digits]
      exact .whole digits
  | @decimal whole part starts written all digits ends =>
      subst written
      have wholeDigits : IsDigits (first :: whole) :=
        ⟨List.cons_ne_nil _ _, List.forall_mem_cons.mpr ⟨starts, all⟩⟩
      rw [← List.cons_append, numberValue_decimal wholeDigits digits]
      exact .decimal wholeDigits digits
  | string starts written closed =>
      subst starts written
      exact .string closed
  | mark written found noComment short =>
      subst written
      rw [← encode_of_mark? found]
      exact .mark _
  | longMark written found =>
      subst written
      rw [← encode_of_withEqual? found]
      exact .mark _

/-- No comment begins where a lexeme stands. -/
theorem noComment (h : Munched first tail rest kind) : NoComment first (tail ++ rest) := by
  have of_ne (other : first ≠ ascii '/') : NoComment first (tail ++ rest) :=
    ⟨fun start => other (prefix_pair_iff.mp start).1,
      fun start => other (prefix_pair_iff.mp start).1⟩
  cases h with
  | word starts all ends =>
      apply of_ne
      rintro rfl
      cases starts
  | whole starts all ends noPart =>
      apply of_ne
      rintro rfl
      cases starts
  | decimal starts written all digits ends =>
      apply of_ne
      rintro rfl
      cases starts
  | string starts written closed => exact of_ne (starts ▸ by decide)
  | mark written found noComment short =>
      subst written
      exact noComment
  | longMark written found =>
      subst written
      constructor
      · intro start
        exact equal_apart.1 (Option.some.inj (prefix_pair_iff.mp start).2)
      · intro start
        exact equal_apart.2 (Option.some.inj (prefix_pair_iff.mp start).2)

/-- A lexeme is the longest if all of its class that the source goes on with are no longer. -/
theorem longest_of
    (all
      : ∀ part kind, part <+: tail ++ rest → Classified first part kind → part.length ≤ tail.length)
    : Longest (first :: tail) rest := by
  intro longer kind start lexeme
  cases longer with
  | nil => exact Nat.zero_le _
  | cons byte part =>
      rcases List.cons_prefix_cons.mp start with ⟨rfl, inside⟩
      exact Nat.succ_le_succ (all part kind inside lexeme.classified)

/-- What is munched is the longest lexeme, by cases of the class. -/
theorem longest (h : Munched first tail rest kind) : Longest (first :: tail) rest := by
  apply longest_of
  intro part other start classified
  have dot : ¬ isDigit (ascii '.') = true := by decide
  cases h with
  | word starts all ends =>
      exact length_le_run all ends (classified.of_word starts).2 start
  | whole starts all ends noPart =>
      rcases classified.of_digit starts with digits | ⟨whole, fraction, rfl, digits, isFraction⟩
      · exact length_le_run all ends digits start
      · rcases run_eq_of_prefix all ends digits dot start with ⟨rfl, after⟩
        rcases fraction with _ | ⟨digit, fraction⟩
        · exact absurd rfl isFraction.some
        · rcases after with ⟨last, same⟩
          have digit := isFraction.digits digit (List.mem_cons_self ..)
          exact absurd digit (noPart _ _ same.symm)
  | @decimal whole fraction starts written all isFraction ends =>
      subst written
      rw [List.append_assoc, List.cons_append] at start
      have point : Ends isDigit (ascii '.' :: (fraction ++ rest)) := by simp [Ends, dot]
      simp only [List.length_append, List.length_cons]
      rcases classified.of_digit starts with digits | ⟨other, longer, rfl, digits, isLonger⟩
      · have short := length_le_run all point digits start
        omega
      · rcases run_eq_of_prefix all point digits dot start with ⟨rfl, after⟩
        have inside := (List.cons_prefix_cons.mp after).2
        have short := length_le_run isFraction.digits ends isLonger.digits inside
        simp only [List.length_append, List.length_cons]
        omega
  | @string content starts written closed =>
      rcases classified.of_quote starts with ⟨other, rfl, otherClosed⟩
      subst written
      rw [List.append_assoc] at start
      have quote : ¬ staysInString (ascii '"') = true := by decide
      have ends : Ends staysInString ([ascii '"'] ++ rest) := by simp [Ends, quote]
      rcases run_eq_of_prefix (staysInString_iff.mpr closed) ends
        (staysInString_iff.mpr otherClosed) quote start with ⟨rfl, _⟩
      exact Nat.le_refl _
  | mark written found noComment short =>
      subst written
      rcases classified.of_mark (by simp [found]) with ⟨sign, text⟩
      rcases of_encode_mark text with ⟨rfl, _⟩ | ⟨rfl, longer⟩
      · exact Nat.le_refl _
      · have equal : rest.head? = some (ascii '=') := by
          rcases start with ⟨last, same⟩
          rw [List.nil_append] at same
          rw [← same]
          rfl
        rw [found, Option.bind_some, short equal] at longer
        cases longer
  | longMark written found =>
      rcases Option.bind_eq_some_iff.mp found with ⟨short, known, longer⟩
      rcases classified.of_mark (by simp [known]) with ⟨sign, text⟩
      subst written
      rcases of_encode_mark text with ⟨rfl, _⟩ | ⟨rfl, _⟩ <;> simp

end Munched

/-- A run is over where no longer bytes of its class make a lexeme. -/
theorem ends_of_longest {test : UInt8 → Bool} (longest : Longest (first :: tail) rest)
    (longer : ∀ byte, test byte → ∃ kind, Lexeme (first :: (tail ++ [byte])) kind)
    : Ends test rest := by
  intro byte head holds
  rcases longer byte holds with ⟨kind, lexeme⟩
  rcases rest with _ | ⟨next, rest⟩
  · cases head
  · cases head
    have short := longest _ _ ⟨rest, by simp⟩ lexeme
    simp only [List.length_cons, List.length_append] at short
    omega

theorem IsDigits.append {digits more : List UInt8} (h : IsDigits digits)
    (all : ∀ byte ∈ more, isDigit byte)
    : IsDigits (digits ++ more) := by
  constructor
  · exact List.append_ne_nil_of_left_ne_nil h.some more
  · exact List.forall_mem_append.mpr ⟨h.digits, all⟩

/-- The longest lexeme is munched, by cases of its class. -/
theorem munched_of_longest {kind : TokenKind} (lexeme : Lexeme (first :: tail) kind)
    (longest : Longest (first :: tail) rest) (noComment : NoComment first (tail ++ rest))
    : Munched first tail rest kind := by
  have one {byte} (digit : isDigit byte) : ∀ other ∈ [byte], isDigit other := by simpa using digit
  cases lexeme.classified with
  | word starts isWord =>
      apply Munched.word starts isWord.2
      apply ends_of_longest longest
      intro byte continues
      have isLonger : IsWord (first :: (tail ++ [byte])) := by
        refine ⟨starts, ?_⟩
        simpa [or_imp, forall_and] using ⟨isWord.2, continues⟩
      exact ⟨_, isLonger.lexeme⟩
  | whole starts digits =>
      refine .whole starts (List.forall_mem_cons.mp digits.digits).2 ?_ ?_
      · apply ends_of_longest longest
        intro byte digit
        exact ⟨_, .whole (digits.append (one digit))⟩
      · rintro digit after rfl isDigit
        have fraction : IsDigits [digit] := ⟨List.cons_ne_nil _ _, one isDigit⟩
        have short := longest _ _ ⟨after, by simp⟩ (.decimal digits fraction)
        simp only [List.length_cons, List.length_append] at short
        omega
  | @decimal whole part starts written all digits =>
      subst written
      refine .decimal starts rfl all digits ?_
      apply ends_of_longest longest
      intro byte digit
      have wholeDigits : IsDigits (first :: whole) :=
        ⟨List.cons_ne_nil _ _, List.forall_mem_cons.mpr ⟨starts, all⟩⟩
      have longer := Lexeme.decimal wholeDigits (digits.append (one digit))
      rw [List.cons_append] at longer
      rw [List.append_assoc]
      exact ⟨_, longer⟩
  | string starts written closed => exact .string starts written closed
  | mark starts written =>
      rcases of_encode_mark written with ⟨rfl, found⟩ | ⟨rfl, found⟩
      · refine .mark rfl found noComment ?_
        intro equal
        rcases List.head?_eq_some_iff.mp equal with ⟨after, rfl⟩
        by_contra isLonger
        rcases Option.ne_none_iff_exists'.mp isLonger with ⟨sign, longer⟩
        have text := encode_of_withEqual? (Option.bind_eq_some_iff.mpr ⟨_, found, longer⟩)
        have short := longest _ _ ⟨after, rfl⟩ (text ▸ Lexeme.mark sign)
        simp at short
      · exact .longMark rfl found

end Lox.Lexer
