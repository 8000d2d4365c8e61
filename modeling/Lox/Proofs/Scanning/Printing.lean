import Lox.Proofs.Scanning.Lines

/-! The source that prints the value of an expression is scanned as the expression is, between a
keyword and a semicolon. The semicolon stands on a line of its own, so that no comment can hide it.
-/

namespace Lox

/-- The source that prints the value of the expression in another. -/
def printing (source : String) : String := "print " ++ source ++ "\n;"

namespace Lexer

/-- The bytes of the keyword. -/
def printWord : List UInt8 := [ascii 'p', ascii 'r', ascii 'i', ascii 'n', ascii 't']

theorem reads_printWord (rest : List UInt8)
    : Reads printWord (ascii ' ' :: rest) (.token (.keyword .print)) := by
  have kind : wordKind printWord = .keyword .print := rfl
  have blank : Ends continuesWord (ascii ' ' :: rest) := by
    rintro byte ⟨⟩
    decide
  have munched : Munched (ascii 'p') [ascii 'r', ascii 'i', ascii 'n', ascii 't']
      (ascii ' ' :: rest) (wordKind printWord) :=
    .word rfl (List.all_eq_true.1 rfl) blank
  rw [← kind]
  exact munched.reads

/-- Scanning reads the keyword and a blank before it goes on as at the start. -/
theorem streamFrom_print (rest : List UInt8)
    : streamFrom [] (printWord ++ ascii ' ' :: rest)
      = .token ⟨.keyword .print, "print", 1⟩ :: streamFrom [] rest := by
  have text : Text.decodeLossy printWord = "print" := rfl
  have lines : newlines printWord = 0 := by decide
  have linesBlank : newlines (printWord ++ [ascii ' ']) = 0 := by decide
  have blank : Reads [ascii ' '] rest .gap := .blank (.inl (by decide))
  calc
    _ = .token ⟨.keyword .print, "print", 1⟩
          :: streamFrom printWord ([ascii ' '] ++ rest) := by
        simp [(reads_printWord rest).streamFrom_eq, Piece.item?, text, lines]
    _ = .token ⟨.keyword .print, "print", 1⟩ :: streamFrom (printWord ++ [ascii ' ']) rest := by
        rw [blank.streamFrom_eq]
        rfl
    _ = .token ⟨.keyword .print, "print", 1⟩ :: streamFrom [] rest := by
        simp only [streamFrom, newlines_append _ rest, linesBlank]
        rfl

/-- The bytes of the source that prints. -/
theorem encode_printing (source : String)
    : Text.encode (printing source)
      = printWord ++ ascii ' ' :: (Text.encode source ++ nextLine [ascii ';']) := by
  have word : Text.encode "print " = printWord ++ [ascii ' '] := Text.encode_eq _
  have last : Text.encode "\n;" = nextLine [ascii ';'] := Text.encode_eq _
  rw [printing, Text.encode_append, Text.encode_append, word, last]
  simp

end Lexer

namespace Scan

open Lexer

variable {source : String}

/-- A scanned source between the keyword and a semicolon on the line behind it. -/
def printing (scan : Scan) : Scan where
  items :=
    .token ⟨.keyword .print, "print", 1⟩ :: scan.items
      ++ [.token ⟨.mark .semicolon, ";", scan.stop.line + 1⟩]
  stop := .endOfInput (scan.stop.line + 1)

theorem errors_printing (scan : Scan) : scan.printing.errors = scan.errors := by
  rw [errors, printing, List.filterMap_append]
  exact List.append_nil _

theorem tokens_printing (scan : Scan)
    : scan.printing.tokens
      = ⟨.keyword .print, "print", 1⟩ :: scan.tokens
        ++ [⟨.mark .semicolon, ";", scan.stop.line + 1⟩] := by
  rw [tokens, printing, List.filterMap_append]
  rfl

/-- A source without errors is scanned alike when its value is to be printed. -/
theorem ofText_printing (clean : (ofText source).errors = [])
    : ofText (Lox.printing source) = (ofText source).printing := by
  have closed : ∀ piece ∈ pieces (Text.encode source), ∀ cause,
      piece.content = .error cause → cause.Closed := by
    intro piece member cause isError
    obtain ⟨error, found, _⟩ := exists_error member isError 1
    have none : (Lexer.items 1 (pieces (Text.encode source))).filterMap Item.error? = [] := clean
    rw [none] at found
    cases found
  have last : streamFrom [] [ascii ';']
      = [.token ⟨.mark .semicolon, ";", 1⟩, .token (.endOfInput 1)] := by
    rw [streamFrom, pieces_eq_piecesWithin (Nat.le_refl _)]
    rfl
  have count (bytes : List UInt8) : newlines (bytes ++ [ascii '\n']) = newlines bytes + 1 :=
    newlines_append ..
  have line : 1 + (newlines (Text.encode source) + 1) = (ofText source).stop.line + 1 :=
    (Nat.add_assoc ..).symm
  have stream : (ofText (Lox.printing source)).stream = (ofText source).printing.stream := by
    rw [ofText, encode_printing, stream_ofBytes, streamFrom_print,
      (tokenizes [] (Text.encode source)).streamFrom_nextLine closed, streamFrom_below,
      List.nil_append, count, last, stream, printing, ← line]
    simp only [List.map_cons, List.map_nil, Item.below, Token.endOfInput, List.cons_append,
      List.append_assoc, List.nil_append]
    rfl
  obtain ⟨items, stop⟩ := List.append_inj' stream rfl
  generalize ofText (Lox.printing source) = scan at items stop
  cases scan
  cases items
  cases stop
  rfl

end Scan
end Lox
