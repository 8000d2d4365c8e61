import Lox.Text.Utf8
import Lox.Token

/-!
Diagnostics: what a user is told when something goes wrong, and how it is worded. Every kind
of error of the library turns into a `Diagnostic`.
-/

namespace Lox

/-- The stage an error comes from. -/
inductive Stage where
  | lexical
  | syntactic
  | scoping
  | running
  | input
  | encoding
  deriving DecidableEq, Repr

/-- Where a token stands, as messages say it. -/
def Token.location (token : Token) : String :=
  if token.isEnd then " at end" else s!" at '{token.lexeme}'"

/-- An error of some stage, ready to be told. -/
structure Diagnostic where
  stage : Stage
  /-- The line counted from one, or zero for an error outside the source. -/
  line : Nat
  /-- Empty, or the place in the line that `Token.location` names. -/
  location : String
  message : String
  deriving DecidableEq, Repr

namespace Diagnostic

/-- A diagnostic located at a token. -/
def atToken (stage : Stage) (token : Token) (message : String) : Diagnostic :=
  ⟨stage, token.line, token.location, message⟩

/-- A diagnostic that names a line only. -/
def atLine (line : Nat) (message : String) : Diagnostic := ⟨.lexical, line, "", message⟩

/-- A diagnostic about reading or writing. -/
def ofInput (message : String) : Diagnostic := ⟨.input, 0, "", message⟩

/-- A diagnostic about bytes that are no text. -/
def ofEncoding (error : Text.Utf8Error) : Diagnostic := ⟨.encoding, 0, "", error.message⟩

/-- The one-line form, used on the error stream for every stage. -/
def report (diagnostic : Diagnostic) : String :=
  s!"[line {diagnostic.line}] Error{diagnostic.location}: {diagnostic.message}"

/-- The form that belongs to the stage: static errors in one line, a fault with its line after
it, and errors outside the source by their message alone. -/
def text (diagnostic : Diagnostic) : String :=
  match diagnostic.stage with
  | .lexical | .syntactic | .scoping => diagnostic.report
  | .running => s!"{diagnostic.message}\n[line {diagnostic.line}]"
  | .input | .encoding => diagnostic.message

end Diagnostic

end Lox
