import Lox.Proofs.Scanning.Lines

/-! Counting lines in one pass. A scanner that keeps a counter, and raises it at each newline that
it passes between tokens, in a string and in a comment over lines, yields the lines that the
newlines before the end of each span make.
-/

namespace Lox.Lexer

-----------------------------------------------------------------------------------------
-- A scanner that counts as it goes
-----------------------------------------------------------------------------------------

/-- What is still to be scanned, and the line that the scanner has come to. -/
structure Cursor where
  ahead : List UInt8
  line : Nat

/-- Passes the content of a string, up to a quote or the end of the source. -/
def passString (line : Nat) : List UInt8 → Cursor
  | [] => ⟨[], line⟩
  | byte :: rest =>
    if byte = ascii '"' then ⟨byte :: rest, line⟩
    else passString (if byte = ascii '\n' then line + 1 else line) rest

/-- Passes a comment in which `depth` levels are open, and tells whether all of them got closed. -/
def passComment : (depth line : Nat) → List UInt8 → Bool × Cursor
  | 0, line, rest => (true, ⟨rest, line⟩)
  | _ + 1, line, [] => (false, ⟨[], line⟩)
  | depth + 1, line, first :: rest =>
    if first = ascii '\n' then passComment (depth + 1) (line + 1) rest
    else if first = ascii '/' && rest.head? = some (ascii '*') then
      passComment (depth + 2) line rest.tail
    else if first = ascii '*' && rest.head? = some (ascii '/') then
      passComment depth line rest.tail
    else passComment (depth + 1) line rest
termination_by _ _ rest => rest.length

/-- Passes one piece. A comment in a line is skipped up to its newline without a look at the bytes,
and what no newline can stand in leaves the counter alone.
-/
def passPiece (line : Nat) (first : UInt8) (rest : List UInt8) : Content × Cursor :=
  if isBlank first then (.gap, ⟨rest, line⟩)
  else if first = ascii '\n' then (.gap, ⟨rest, line + 1⟩)
  else if first = ascii '"' then
    let after := passString line rest
    match after.ahead with
    | [] => (.error .unterminatedString, after)
    | _ :: ahead =>
      let content := rest.take (rest.length - after.ahead.length)
      (.token (.string (Text.decodeLossy content)), ⟨ahead, after.line⟩)
  else if first = ascii '/' && rest.head? = some (ascii '/') then
    (.gap, ⟨rest.dropWhile staysOnLine, line⟩)
  else if first = ascii '/' && rest.head? = some (ascii '*') then
    match passComment 1 line rest.tail with
    | (true, after) => (.gap, after)
    | (false, after) => (.error .unterminatedComment, after)
  else
    let (content, size) := recognize first rest
    (content, ⟨rest.drop size, line⟩)

variable {first : UInt8} {rest tail span before : List UInt8} {content : Content}

-----------------------------------------------------------------------------------------
-- What is counted
-----------------------------------------------------------------------------------------

theorem newlines_cons (byte : UInt8) (bytes : List UInt8)
    : newlines (byte :: bytes) = (if byte = ascii '\n' then 1 else 0) + newlines bytes := by
  rw [newlines, List.count_cons, Nat.add_comm]
  simp [newlines]

theorem newlines_opening (bytes : List UInt8)
    : newlines (ascii '/' :: ascii '*' :: bytes) = newlines bytes := by
  simp [newlines_cons, ascii]

theorem newlines_closing (bytes : List UInt8)
    : newlines (ascii '*' :: ascii '/' :: bytes) = newlines bytes := by
  simp [newlines_cons, ascii]

theorem newlines_eq_zero (none : ascii '\n' ∉ rest) : newlines rest = 0 :=
  List.count_eq_zero.mpr none

/-- The content of a string is passed with its newlines, by induction over it. -/
theorem passString_eq (closed : ascii '"' ∉ tail) (ends : ∀ byte ∈ rest.head?, byte = ascii '"')
    (line : Nat)
    : passString line (tail ++ rest) = ⟨rest, line + newlines tail⟩ := by
  induction tail generalizing line with
  | nil =>
      cases rest with
      | nil => rfl
      | cons byte rest => simp [passString, ends byte rfl, newlines]
  | cons byte tail ih =>
      simp only [List.mem_cons, not_or] at closed
      rw [List.cons_append, passString, if_neg (Ne.symm closed.1), ih closed.2, newlines_cons]
      split <;> simp [Nat.add_assoc]

theorem passComment_opening (depth line : Nat) (rest : List UInt8)
    : passComment (depth + 1) line (ascii '/' :: ascii '*' :: rest)
      = passComment (depth + 2) line rest := by
  rw [passComment, if_neg (by decide), if_pos (by simp)]
  rfl

theorem passComment_closing (depth line : Nat) (rest : List UInt8)
    : passComment (depth + 1) line (ascii '*' :: ascii '/' :: rest)
      = passComment depth line rest := by
  have other : ascii '*' ≠ ascii '/' := by decide
  rw [passComment, if_neg (by decide), if_neg (by simp [other]), if_pos (by simp)]
  rfl

/-- A byte that no delimiter starts with is passed, and counted if it is a newline. -/
theorem passComment_cons {depth : Nat} (line : Nat)
    (opening : ∀ second ∈ rest.head?, [first, second] ≠ blockOpening)
    (closing : ∀ second ∈ rest.head?, [first, second] ≠ blockClosing)
    : passComment (depth + 1) line (first :: rest)
      = passComment (depth + 1) (line + newlines [first]) rest := by
  have noOpening : ¬ (first = ascii '/' ∧ rest.head? = some (ascii '*')) :=
    fun both => opening _ both.2 (congrArg ([·, _]) both.1)
  have noClosing : ¬ (first = ascii '*' ∧ rest.head? = some (ascii '/')) :=
    fun both => closing _ both.2 (congrArg ([·, _]) both.1)
  rw [passComment, newlines_cons]
  by_cases newline : first = ascii '\n'
  · rw [if_pos newline, if_pos newline]
    rfl
  · rw [if_neg newline, if_neg (by simpa using noOpening), if_neg (by simpa using noClosing),
      if_neg newline]
    rfl

theorem newlines_pair (first second : UInt8)
    : newlines (first :: second :: rest) = newlines [first] + newlines (second :: rest) :=
  newlines_append [first] (second :: rest)

/-- A comment is passed up to its end with its newlines, by induction over its delimiters. -/
theorem passComment_of_closes {depth : Nat} {part : List UInt8} (h : Closes depth part)
    (line : Nat) (rest : List UInt8)
    : passComment depth line (part ++ rest) = (true, ⟨rest, line + newlines part⟩) := by
  cases depth with
  | zero =>
      cases closes_zero.mp h
      rw [List.nil_append, passComment]
      rfl
  | succ depth =>
      induction part using delimiters.induct generalizing depth line with
      | case1 first second more opening ih =>
          simp only [blockOpening, List.cons.injEq] at opening
          rcases opening with ⟨rfl, rfl, _⟩
          have inside := (closes_pair fun _ => closing_opening).mp h
          rw [List.cons_append, List.cons_append, passComment_opening, ih _ _ inside,
            newlines_opening]
      | case2 first second more _ closing ih =>
          simp only [blockClosing, List.cons.injEq] at closing
          rcases closing with ⟨rfl, rfl, _⟩
          have inside := (closes_pair fun _ => closing_closing).mp h
          rw [List.cons_append, List.cons_append, passComment_closing, newlines_closing]
          cases depth with
          | zero =>
              cases closes_zero.mp inside
              rw [List.nil_append, passComment]
              rfl
          | succ depth => exact ih _ _ inside
      | case3 first second more opening closing ih =>
          have inside := (closes_cons opening closing List.prefix_rfl).mp h
          rw [List.cons_append, passComment_cons, ih _ _ inside, newlines_pair, Nat.add_assoc]
          · rintro byte ⟨rfl⟩
            exact opening
          · rintro byte ⟨rfl⟩
            exact closing
      | case4 part short =>
          rcases h.two_le with ⟨first, second, more, rfl⟩
          exact (short first second more rfl).elim

/-- A comment that is not closed is passed up to the end of the source, by induction over its
delimiters.
-/
theorem passComment_of_open {depth : Nat} {bytes : List UInt8}
    (unclosed : ∀ part, part <+: bytes → ¬ Closes (depth + 1) part) (line : Nat)
    : passComment (depth + 1) line bytes = (false, ⟨[], line + newlines bytes⟩) := by
  induction bytes using delimiters.induct generalizing depth line with
  | case1 first second more opening ih =>
      simp only [blockOpening, List.cons.injEq] at opening
      rcases opening with ⟨rfl, rfl, _⟩
      rw [passComment_opening, ih, newlines_opening]
      intro part start closes
      exact unclosed (ascii '/' :: ascii '*' :: part) (by simpa using start)
        ((closes_pair fun _ => closing_opening).mpr closes)
  | case2 first second more _ closing ih =>
      simp only [blockClosing, List.cons.injEq] at closing
      rcases closing with ⟨rfl, rfl, _⟩
      have still (part) (start : part <+: more) : ¬ Closes depth part := fun closes =>
        unclosed (ascii '*' :: ascii '/' :: part) (by simpa using start)
          ((closes_pair fun _ => closing_closing).mpr closes)
      cases depth with
      | zero => exact absurd (closes_zero.mpr rfl) (still [] List.nil_prefix)
      | succ depth => rw [passComment_closing, ih still, newlines_closing]
  | case3 first second more opening closing ih =>
      have still (part) (start : part <+: second :: more) : ¬ Closes (depth + 1) part :=
        fun closes =>
          unclosed (first :: part) (by simpa using start)
            ((closes_cons opening closing start).mpr closes)
      rw [passComment_cons, ih still, newlines_pair, Nat.add_assoc]
      · rintro byte ⟨rfl⟩
        exact opening
      · rintro byte ⟨rfl⟩
        exact closing
  | case4 bytes short =>
      rcases bytes with _ | ⟨first, _ | ⟨second, more⟩⟩
      · rw [passComment]
        rfl
      · rw [passComment_cons line (by simp) (by simp), passComment]
      · exact (short first second more rfl).elim

-----------------------------------------------------------------------------------------
-- Pieces without newlines
-----------------------------------------------------------------------------------------

theorem not_mem_newline {test : UInt8 → Bool} (other : test (ascii '\n') = false)
    (all : ∀ byte ∈ rest, test byte)
    : ascii '\n' ∉ rest := by
  intro member
  have holds := all _ member
  rw [other] at holds
  cases holds

/-- A lexeme that is no string begins with no blank and goes over no newline, by cases of its class.
-/
theorem Munched.not_mem_newline {kind : TokenKind} (h : Munched first tail rest kind)
    (noString : first ≠ ascii '"')
    : isBlank first = false ∧ first ≠ ascii '\n' ∧ ascii '\n' ∉ tail := by
  have digits {bytes : List UInt8} (all : ∀ byte ∈ bytes, isDigit byte) : ascii '\n' ∉ bytes :=
    Lexer.not_mem_newline (by decide) all
  cases h with
  | word starts all ends =>
      have apart := startsWord_apart first starts
      exact ⟨apart.2.2.2.1, apart.2.2.2.2.1, Lexer.not_mem_newline (by decide) all⟩
  | whole starts all ends noPart =>
      have apart := isDigit_apart first starts
      exact ⟨apart.2.2.2.1, apart.2.2.2.2.1, digits all⟩
  | decimal starts written all part ends =>
      have apart := isDigit_apart first starts
      have point : ascii '\n' ≠ ascii '.' := by decide
      subst written
      simp [apart, digits all, digits part.digits, point]
  | string starts => exact absurd starts noString
  | mark written found =>
      have apart := mark?_apart first (by simp [found])
      simp [apart, written]
  | longMark written found =>
      obtain ⟨short, known, _⟩ := Option.bind_eq_some_iff.mp found
      have apart := mark?_apart first (by simp [known])
      have equal : ascii '\n' ≠ ascii '=' := by decide
      simp [apart, written, equal]

/-- What no newline can stand in is passed as it is recognized. -/
theorem passPiece_recognized {after : List UInt8} (blank : isBlank first = false)
    (newline : first ≠ ascii '\n') (quote : first ≠ ascii '"') (noComment : NoComment first after)
    (line : Nat)
    : passPiece line first after
      = ((recognize first after).1, ⟨after.drop (recognize first after).2, line⟩) := by
  have noLine : ¬ (first = ascii '/' ∧ after.head? = some (ascii '/')) :=
    fun both => noComment.line (prefix_pair_iff.mpr both)
  have noBlock : ¬ (first = ascii '/' ∧ after.head? = some (ascii '*')) :=
    fun both => noComment.block (prefix_pair_iff.mpr both)
  rw [passPiece, if_neg (by simp [blank]), if_neg newline, if_neg quote,
    if_neg (by simpa using noLine), if_neg (by simpa using noBlock)]

-----------------------------------------------------------------------------------------
-- Every piece
-----------------------------------------------------------------------------------------

theorem passPiece_string {text : List UInt8} (closed : ascii '"' ∉ text) (line : Nat)
    : passPiece line (ascii '"') (text ++ ascii '"' :: rest)
      = (.token (.string (Text.decodeLossy text)), ⟨rest, line + newlines text⟩) := by
  have quote : ∀ byte ∈ (ascii '"' :: rest).head?, byte = ascii '"' := by simp
  have passed := passString_eq closed quote line
  have size : (text ++ ascii '"' :: rest).length - (ascii '"' :: rest).length = text.length := by
    simp
  rw [passPiece, if_neg (by decide), if_neg (by decide), if_pos rfl]
  simp only [passed, size, List.take_left]

theorem passPiece_openString {text : List UInt8} (unclosed : ascii '"' ∉ text) (line : Nat)
    : passPiece line (ascii '"') text
      = (.error .unterminatedString, ⟨[], line + newlines text⟩) := by
  have passed := @passString_eq [] text unclosed (by simp) line
  rw [List.append_nil] at passed
  rw [passPiece, if_neg (by decide), if_neg (by decide), if_pos rfl]
  simp only [passed]

theorem passPiece_comment (line : Nat) (bytes : List UInt8)
    : passPiece line (ascii '/') (ascii '*' :: bytes)
      = match passComment 1 line bytes with
        | (true, after) => (.gap, after)
        | (false, after) => (.error .unterminatedComment, after) := by
  have other : ascii '*' ≠ ascii '/' := by decide
  rw [passPiece, if_neg (by decide), if_neg (by decide), if_neg (by decide),
    if_neg (by simp [other]), if_pos (by simp)]
  rfl

theorem StartsNothing.noComment (h : StartsNothing first) : NoComment first rest := by
  have slash : first ≠ ascii '/' := by
    rintro rfl
    cases h.mark
  exact ⟨fun start => slash (prefix_pair_iff.mp start).1,
    fun start => slash (prefix_pair_iff.mp start).1⟩

theorem passPiece_lineComment {text : List UInt8} (noNewline : ascii '\n' ∉ text)
    (ends : ∀ byte ∈ rest.head?, byte = ascii '\n') (line : Nat)
    : passPiece line (ascii '/') (ascii '/' :: text ++ rest)
      = (.gap, ⟨rest, line + newlines (lineOpening ++ text)⟩) := by
  have passed := dropWhile_run (staysOnLine_iff.mpr noNewline) (ends_staysOnLine_iff.mpr ends)
  have stays : staysOnLine (ascii '/') = true := by decide
  have none : newlines (lineOpening ++ text) = 0 := by
    rw [newlines_append, newlines_eq_zero noNewline]
    decide
  rw [passPiece, if_neg (by decide), if_neg (by decide), if_neg (by decide), if_pos (by simp)]
  simp [stays, passed, none]

/-- A lexeme is passed with the newlines in it, which only a string has. -/
theorem Munched.passPiece_eq {kind : TokenKind} (h : Munched first tail rest kind) (line : Nat)
    : passPiece line first (tail ++ rest)
      = (.token kind, ⟨rest, line + newlines (first :: tail)⟩) := by
  by_cases quote : first = ascii '"'
  · subst quote
    cases h with
    | @string text starts written closed =>
        have none : newlines [ascii '"'] = 0 := by decide
        have count : newlines (ascii '"' :: (text ++ [ascii '"'])) = newlines text := by
          rw [← List.singleton_append, newlines_append, newlines_append, none]
          simp
        subst written
        rw [List.append_assoc, List.singleton_append, passPiece_string closed, count]
    | word starts | whole starts | decimal starts => cases starts
    | mark written found | longMark written found => cases found
  · obtain ⟨blank, newline, none⟩ := h.not_mem_newline quote
    have count : newlines (first :: tail) = 0 :=
      newlines_eq_zero (by simp [newline.symm, none])
    rw [passPiece_recognized blank newline quote h.noComment, h.recognize_eq, List.drop_left, count]
    rfl

/-- What is read is passed, and the newlines in it are counted. By cases of what is read. -/
theorem Reads.passPiece_eq (h : Reads span rest content) (line : Nat)
    : ∃ first tail,
        span = first :: tail
        ∧ passPiece line first (tail ++ rest) = (content, ⟨rest, line + newlines span⟩) := by
  cases h with
  | @blank byte rest separates =>
      refine ⟨byte, [], rfl, ?_⟩
      rw [passPiece, newlines_cons]
      by_cases blank : isBlank byte
      · have other : byte ≠ ascii '\n' := by
          rintro rfl
          cases blank
        rw [if_pos blank, if_neg other]
        rfl
      · have newline := separates.resolve_left blank
        rw [if_neg blank, if_pos newline, if_pos newline]
        rfl
  | @lineComment text rest noNewline ends =>
      exact ⟨ascii '/', ascii '/' :: text, rfl, passPiece_lineComment noNewline ends line⟩
  | blockComment comment =>
      obtain ⟨part, rfl, closes⟩ := comment.exists_closes
      have count : newlines (blockOpening ++ part) = newlines part := newlines_opening part
      refine ⟨ascii '/', ascii '*' :: part, rfl, ?_⟩
      rw [List.cons_append, passPiece_comment, passComment_of_closes closes, count]
  | openComment opens unclosed =>
      obtain ⟨text, rfl⟩ := opens
      have count : newlines (blockOpening ++ text) = newlines text := newlines_opening text
      have still (part) (start : part <+: text) : ¬ Closes 1 part := fun closes =>
        unclosed _ ((List.prefix_append_right_inj _).mpr start) (blockComment_iff.mpr closes)
      refine ⟨ascii '/', ascii '*' :: text, rfl, ?_⟩
      rw [List.append_nil, passPiece_comment, passComment_of_open still, count]
  | @lexeme span rest kind lexeme longest noLine noBlock =>
      cases span with
      | nil => exact absurd rfl lexeme.ne_nil
      | cons first tail =>
          have munched := munched_of_longest lexeme longest ⟨noLine, noBlock⟩
          exact ⟨first, tail, rfl, munched.passPiece_eq line⟩
  | @openString text unclosed =>
      refine ⟨ascii '"', text, rfl, ?_⟩
      rw [List.append_nil, passPiece_openString unclosed, newlines_cons, if_neg (by decide),
        Nat.zero_add]
  | @byte byte rest strange plain =>
      have nothing := strange.startsNothing
      have count : newlines [byte] = 0 := newlines_eq_zero (by simp [nothing.newline.symm])
      refine ⟨byte, [], rfl, ?_⟩
      rw [List.nil_append, passPiece_recognized nothing.blank nothing.newline nothing.quote
        nothing.noComment, recognize_byte nothing plain, count]
      rfl
  | @character byte more rest strange other continues ends =>
      have nothing := strange.startsNothing
      have none : ascii '\n' ∉ more := Lexer.not_mem_newline (by decide) continues
      have count : newlines (byte :: more) = 0 :=
        newlines_eq_zero (by simp [nothing.newline.symm, none])
      refine ⟨byte, more, rfl, ?_⟩
      rw [passPiece_recognized nothing.blank nothing.newline nothing.quote nothing.noComment,
        recognize_character nothing other continues ends, List.drop_left, count]
      rfl

-----------------------------------------------------------------------------------------
-- The whole source
-----------------------------------------------------------------------------------------

/-- A piece passed leaves what is behind it to be scanned. -/
theorem length_passPiece (line : Nat) (first : UInt8) (rest : List UInt8)
    : (passPiece line first rest).2.ahead.length ≤ rest.length := by
  obtain ⟨tail, more, content, rfl, reads⟩ := exists_reads first rest
  obtain ⟨byte, bytes, same, passed⟩ := reads.passPiece_eq line
  cases same
  rw [passed, List.length_append]
  exact Nat.le_add_left ..

/-- What a scanner yields that counts as it goes. The text of an item is what was passed for it, and
its line is that of the counter behind it.
-/
def countedItems (line : Nat) : List UInt8 → List Item
  | [] => [.token (.endOfInput line)]
  | first :: rest =>
    let passed := passPiece line first rest
    let size := rest.length - passed.2.ahead.length
    (Piece.item? ⟨first :: rest.take size, passed.1⟩ passed.2.line).toList
      ++ countedItems passed.2.line passed.2.ahead
termination_by bytes => bytes.length
decreasing_by exact Nat.lt_succ_of_le (length_passPiece line first rest)

/-- The scanner that counts yields the items of a piece, and goes on behind it. -/
theorem Reads.countedItems_eq (h : Reads span rest content) (line : Nat)
    : countedItems line (span ++ rest)
      = (Piece.item? ⟨span, content⟩ (line + newlines span)).toList
        ++ countedItems (line + newlines span) rest := by
  obtain ⟨first, tail, rfl, passed⟩ := h.passPiece_eq line
  have size : (tail ++ rest).length - rest.length = tail.length := by simp
  rw [List.cons_append, countedItems]
  simp only [passed, size, List.take_left]

/-- The scanner that counts yields what scanning does, by induction over the parts of the source. -/
theorem Tokenizes.eq_countedItems {ahead : List UInt8} {cut : List Piece} {stream : List Item}
    (h : Tokenizes before ahead cut stream)
    : stream = countedItems (1 + newlines before) ahead := by
  induction h with
  | stop => rw [countedItems]
  | gap reads _ ih | token reads _ ih | error reads _ ih =>
      rw [reads.countedItems_eq, Nat.add_assoc, ← newlines_append, ← ih]
      rfl

-----------------------------------------------------------------------------------------
-- Spans
-----------------------------------------------------------------------------------------

/-- The offsets in a source that the span of an item lies between. -/
structure Span where
  start : Nat
  stop : Nat

/-- The spans of the pieces with items, the first of which starts at an offset, and of the end. -/
def spans (start : Nat) : List Piece → List Span
  | [] => [⟨start, start⟩]
  | piece :: rest =>
    let stop := start + piece.bytes.length
    match piece.content with
    | .gap => spans stop rest
    | .token _ | .error _ => ⟨start, stop⟩ :: spans stop rest

/-- An item is what is read between two offsets of a source, or the end of the source. Nothing is
said of its line.
-/
inductive Stands (source : List UInt8) : Item → Span → Prop
  | token {front span back kind line} (split : source = front ++ (span ++ back))
    (reads : Reads span back (.token kind))
    : Stands source (.token ⟨kind, Text.decodeLossy span, line⟩)
        ⟨front.length, front.length + span.length⟩
  | error {front span back cause line} (split : source = front ++ (span ++ back))
    (reads : Reads span back (.error cause))
    : Stands source (.error ⟨line, cause⟩) ⟨front.length, front.length + span.length⟩
  | stop {line} : Stands source (.token (.endOfInput line)) ⟨source.length, source.length⟩

/-- An item stands between two offsets, and its line is made by the newlines before the second. -/
structure Located (source : List UInt8) (item : Item) (place : Span) : Prop where
  stands : Stands source item place
  line : item.line = 1 + newlines (source.take place.stop)

theorem take_stop (front span back : List UInt8)
    : (front ++ (span ++ back)).take (front.length + span.length) = front ++ span := by
  rw [← List.append_assoc, ← List.length_append, List.take_left]

/-- The items of a source are located at the spans of its pieces, by induction over its parts. -/
theorem Tokenizes.located {ahead source : List UInt8} {cut : List Piece} {stream : List Item}
    (h : Tokenizes before ahead cut stream) (split : source = before ++ ahead)
    : stream.Forall₂ (Located source) (spans before.length cut) := by
  induction h with
  | @stop before =>
      rw [List.append_nil] at split
      subst split
      exact .cons ⟨.stop, by simp [Item.line, Token.endOfInput]⟩ .nil
  | gap _ _ ih =>
      have further := ih (by rw [split, List.append_assoc])
      rw [List.length_append] at further
      exact further
  | @token before span rest kind cut items reads _ ih =>
      have further := ih (by rw [split, List.append_assoc])
      rw [List.length_append] at further
      refine .cons ⟨.token split reads, ?_⟩ further
      rw [split, take_stop]
      rfl
  | @error before span rest cause cut items reads _ ih =>
      have further := ih (by rw [split, List.append_assoc])
      rw [List.length_append] at further
      refine .cons ⟨.error split reads, ?_⟩ further
      rw [split, take_stop]
      rfl

/-- What is left open goes on to the end of the source. -/
theorem Reads.rest_eq_nil {cause : LexicalCause} (h : Reads span rest (.error cause))
    (unclosed : ¬ cause.Closed)
    : rest = [] := by
  cases h with
  | openComment | openString => rfl
  | byte | character => exact absurd ⟨nofun, nofun⟩ unclosed

/-- What is left open is told on the last line, by induction over the parts of the source. -/
theorem Tokenizes.line_of_open {ahead : List UInt8} {cut : List Piece} {stream : List Item}
    (h : Tokenizes before ahead cut stream) {error : LexicalError}
    (member : .error error ∈ stream) (unclosed : ¬ error.cause.Closed)
    : error.line = 1 + newlines (before ++ ahead) := by
  induction h with
  | stop => simp at member
  | gap _ _ ih =>
      rw [← List.append_assoc]
      exact ih member
  | token _ _ ih =>
      rw [← List.append_assoc]
      exact ih (by simpa using member)
  | error reads _ ih =>
      rw [← List.append_assoc]
      rcases List.mem_cons.mp member with same | later
      · cases same
        rw [reads.rest_eq_nil unclosed, List.append_nil]
      · exact ih later

/-- The line of an item is one more than the number of newlines before the end of its span. It is
the line that a scanner comes to which counts each newline once, where it passes it. In particular a
string or a comment that is left open is told on the last line.
-/
theorem lines_exact (source : List UInt8)
    : (Scan.ofBytes source).stream = countedItems 1 source
      ∧ (Scan.ofBytes source).stream.Forall₂ (Located source) (spans 0 (pieces source))
      ∧ ∀ error ∈ (Scan.ofBytes source).errors,
          ¬ error.cause.Closed → error.line = 1 + newlines source := by
  have reads := tokenizes [] source
  refine ⟨reads.eq_countedItems, reads.located rfl, ?_⟩
  intro error member unclosed
  obtain ⟨item, among, same⟩ := List.mem_filterMap.mp member
  cases item with
  | token found => cases same
  | error found =>
      cases same
      exact reads.line_of_open (List.mem_append_left _ among) unclosed

end Lox.Lexer
