import Lox.Proofs.Scanning.Munching

/-! What stands at a place of a source. The reference has a part for every source that is not
empty, and the scanner recognizes that part and no other.
-/

namespace Lox.Lexer

variable {first : UInt8} {rest tail more span : List UInt8} {content : Content}

-----------------------------------------------------------------------------------------
-- Strange bytes
-----------------------------------------------------------------------------------------

theorem isWord_singleton (starts : startsWord first) : IsWord [first] :=
  ⟨starts, fun _ member => absurd member List.not_mem_nil⟩

theorem Strange.startsNothing (h : Strange (first :: rest)) : StartsNothing first := by
  have noLexeme (kind) : ¬ Lexeme [first] kind := h.lexeme _ kind ⟨rest, rfl⟩
  rcases h.blank first rfl with ⟨blank, newline, quote⟩
  refine ⟨blank, newline, ?_, ?_, quote, ?_⟩
  · by_contra starts
    exact noLexeme _ (isWord_singleton (by simpa using starts)).lexeme
  · by_contra digit
    have digits : IsDigits [first] := ⟨List.cons_ne_nil _ _, by simpa using digit⟩
    exact noLexeme _ (.whole digits)
  · by_contra isMark
    rcases Option.ne_none_iff_exists'.mp isMark with ⟨sign, found⟩
    exact noLexeme _ (encode_of_mark? found ▸ Lexeme.mark sign)

theorem StartsNothing.strange (h : StartsNothing first) (rest : List UInt8)
    : Strange (first :: rest) := by
  constructor
  · rintro byte ⟨rfl⟩
    exact ⟨h.blank, h.newline, h.quote⟩
  · intro span kind start lexeme
    cases span with
    | nil => exact lexeme.ne_nil rfl
    | cons byte span =>
        rcases List.cons_prefix_cons.mp start with ⟨rfl, _⟩
        cases lexeme.classified with
        | word starts => simp [h.word] at starts
        | whole starts | decimal starts => simp [h.digit] at starts
        | string starts => exact h.quote starts
        | mark starts => simp [h.mark] at starts

-----------------------------------------------------------------------------------------
-- Every place has a part
-----------------------------------------------------------------------------------------

theorem Munched.reads {kind : TokenKind} (h : Munched first tail rest kind)
    : Reads (first :: tail) rest (.token kind) :=
  .lexeme h.lexeme h.longest h.noComment.line h.noComment.block

/-- A number is munched where a digit stands. -/
theorem exists_munched_number (starts : isDigit first) (rest : List UInt8)
    : ∃ tail more kind, rest = tail ++ more ∧ Munched first tail more kind := by
  rcases exists_run isDigit rest with ⟨whole, after, rfl, all, ends⟩
  by_cases decimal : ∃ digit more, after = ascii '.' :: digit :: more ∧ isDigit digit
  · rcases decimal with ⟨digit, more, rfl, starting⟩
    rcases exists_run isDigit more with ⟨part, last, rfl, allPart, endsPart⟩
    have digits : IsDigits (digit :: part) :=
      ⟨List.cons_ne_nil _ _, List.forall_mem_cons.mpr ⟨starting, allPart⟩⟩
    exact ⟨whole ++ ascii '.' :: digit :: part, last, _, by simp,
      .decimal starts rfl all digits endsPart⟩
  · refine ⟨whole, after, _, rfl, .whole starts all ends ?_⟩
    intro digit more written isDigit
    exact decimal ⟨digit, more, written, isDigit⟩

/-- A string is read where a quote stands, and an error if no other quote follows. -/
theorem exists_reads_string (rest : List UInt8)
    : ∃ tail more content, rest = tail ++ more ∧ Reads (ascii '"' :: tail) more content := by
  rcases exists_run staysInString rest with ⟨content, after, rfl, all, ends⟩
  have closed := staysInString_iff.mp all
  cases after with
  | nil => exact ⟨content, [], _, rfl, .openString closed⟩
  | cons byte more =>
      have quote : byte = ascii '"' := by simpa [staysInString] using ends byte rfl
      subst quote
      exact ⟨content ++ [ascii '"'], more, _, by simp, Munched.reads (.string rfl rfl closed)⟩

/-- A comment is read where it begins, and an error if it is not closed. -/
theorem exists_reads_comment (rest : List UInt8)
    : ∃ tail more content,
        ascii '*' :: rest = tail ++ more ∧ Reads (ascii '/' :: tail) more content := by
  by_cases closed : ∃ part, part <+: rest ∧ Closes 1 part
  · rcases closed with ⟨part, ⟨more, rfl⟩, closes⟩
    exact ⟨ascii '*' :: part, more, _, rfl, .blockComment (blockComment_iff.mpr closes)⟩
  · refine ⟨ascii '*' :: rest, [], _, by simp, .openComment ⟨rest, rfl⟩ ?_⟩
    intro part start comment
    rcases comment.exists_closes with ⟨inside, rfl, closes⟩
    exact closed ⟨inside, (List.prefix_append_right_inj blockOpening).mp start, closes⟩

/-- A mark is munched where one stands, with an equals sign if the two are one mark. -/
theorem exists_munched_mark {sign : Mark} (found : mark? first = some sign)
    (noComment : NoComment first rest)
    : ∃ tail more kind, rest = tail ++ more ∧ Munched first tail more kind := by
  by_cases short : rest.head? = some (ascii '=') → withEqual? sign = none
  · exact ⟨[], rest, _, rfl, .mark rfl found noComment short⟩
  · rcases Classical.not_imp.mp short with ⟨equal, isLonger⟩
    rcases List.head?_eq_some_iff.mp equal with ⟨more, rfl⟩
    rcases Option.ne_none_iff_exists'.mp isLonger with ⟨longer, known⟩
    have both := Option.bind_eq_some_iff.mpr ⟨sign, found, known⟩
    exact ⟨[ascii '='], more, _, rfl, .longMark rfl both⟩

/-- What starts nothing is read alone, or with the bytes that continue the character. -/
theorem StartsNothing.exists_reads (h : StartsNothing first) (rest : List UInt8)
    : ∃ tail more content, rest = tail ++ more ∧ Reads (first :: tail) more content := by
  by_cases plain : first < 0x80
  · exact ⟨[], rest, _, rfl, .byte (h.strange rest) plain⟩
  · rcases exists_run continuesCharacter rest with ⟨tail, more, rfl, all, ends⟩
    exact ⟨tail, more, _, rfl, .character (h.strange _) plain all ends⟩

/-- Every source that is not empty has a first part. -/
theorem exists_reads (first : UInt8) (rest : List UInt8)
    : ∃ tail more content, rest = tail ++ more ∧ Reads (first :: tail) more content := by
  by_cases separates : isBlank first ∨ first = ascii '\n'
  · exact ⟨[], rest, _, rfl, .blank separates⟩
  by_cases word : startsWord first
  · rcases exists_run continuesWord rest with ⟨tail, more, rfl, all, ends⟩
    exact ⟨tail, more, _, rfl, Munched.reads (.word word all ends)⟩
  by_cases digit : isDigit first
  · rcases exists_munched_number digit rest with ⟨tail, more, kind, split, munched⟩
    exact ⟨tail, more, _, split, munched.reads⟩
  by_cases quote : first = ascii '"'
  · subst quote
    exact exists_reads_string rest
  by_cases line : lineOpening <+: first :: rest
  · rcases prefix_pair_iff.mp line with ⟨rfl, second⟩
    rcases List.head?_eq_some_iff.mp second with ⟨after, rfl⟩
    rcases exists_run staysOnLine after with ⟨text, more, rfl, all, ends⟩
    exact ⟨ascii '/' :: text, more, _, rfl,
      .lineComment (staysOnLine_iff.mp all) (ends_staysOnLine_iff.mp ends)⟩
  by_cases block : blockOpening <+: first :: rest
  · rcases prefix_pair_iff.mp block with ⟨rfl, second⟩
    rcases List.head?_eq_some_iff.mp second with ⟨after, rfl⟩
    exact exists_reads_comment after
  cases found : mark? first with
  | some sign =>
      rcases exists_munched_mark found ⟨line, block⟩ with ⟨tail, more, kind, split, munched⟩
      exact ⟨tail, more, _, split, munched.reads⟩
  | none =>
      have nothing : StartsNothing first := by
        constructor <;> simp_all
      exact nothing.exists_reads rest

-----------------------------------------------------------------------------------------
-- The part is recognized
-----------------------------------------------------------------------------------------

/-- What the reference reads, the scanner recognizes, by cases of what is read. -/
theorem Reads.recognized (h : Reads span rest content)
    : ∃ first tail,
        span = first :: tail ∧ recognize first (tail ++ rest) = (content, tail.length) := by
  cases h with
  | blank separates => exact ⟨_, [], rfl, recognize_blank separates⟩
  | lineComment line ends => exact ⟨_, _, rfl, recognize_lineComment line ends⟩
  | blockComment comment =>
      rcases comment.exists_closes with ⟨part, rfl, closes⟩
      exact ⟨_, _, rfl, recognize_blockComment closes⟩
  | openComment opens unclosed =>
      rcases opens with ⟨text, rfl⟩
      refine ⟨_, _, rfl, ?_⟩
      rw [List.append_nil]
      apply recognize_openComment
      intro part start closes
      exact unclosed _ ((List.prefix_append_right_inj _).mpr start) (blockComment_iff.mpr closes)
  | lexeme lexeme longest noLine noBlock =>
      cases span with
      | nil => exact absurd rfl lexeme.ne_nil
      | cons first tail =>
          have munched := munched_of_longest lexeme longest ⟨noLine, noBlock⟩
          exact ⟨first, tail, rfl, munched.recognize_eq⟩
  | @openString text unclosed =>
      refine ⟨_, text, rfl, ?_⟩
      rw [List.append_nil]
      exact recognize_openString unclosed
  | byte strange plain => exact ⟨_, [], rfl, recognize_byte strange.startsNothing plain⟩
  | character strange other continues ends =>
      exact ⟨_, _, rfl, recognize_character strange.startsNothing other continues ends⟩

/-- The pieces of a source begin with the part that is read there. -/
theorem Reads.pieces_eq (h : Reads span rest content)
    : pieces (span ++ rest) = ⟨span, content⟩ :: pieces rest := by
  rcases h.recognized with ⟨first, tail, rfl, known⟩
  rw [List.cons_append, pieces, known]
  simp

theorem Reads.ne_nil (h : Reads span rest content) : span ≠ [] := by
  rcases h.recognized with ⟨first, tail, rfl, _⟩
  exact List.cons_ne_nil _ _

end Lox.Lexer
