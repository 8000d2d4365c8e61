import Lox.Text.Extending
import Lox.Text.Unprinted

/-!
Quoted text in which every character can be seen. A character that stands alone is written as
it is, and any other by its number.
-/

namespace Lox.Text

/-- The character lies in one of some closed ranges of code points. -/
def liesIn (ranges : List (Nat × Nat)) (c : Char) : Bool :=
  ranges.any fun range => range.1 ≤ c.toNat && c.toNat ≤ range.2

/-- The character has a mark of its own, which joins no other. -/
def standsAlone (c : Char) : Bool := !liesIn extendingRanges c && !liesIn unprintedRanges c

/-- A character as it can be seen between quotes. -/
def escapeVisibly (c : Char) : List Char :=
  if c = '"' then ['\\', '"']
  else if c = '\\' then ['\\', '\\']
  else if c = '\n' then ['\\', 'n']
  else if c = '\r' then ['\\', 'r']
  else if c = '\t' then ['\\', 't']
  else if c = '\x00' then ['\\', '0']
  else if standsAlone c then [c]
  else ['\\', 'u', '\x7b'] ++ Nat.toDigits 16 c.toNat ++ ['\x7d']

/-- The text between quotes, with every character to be seen. -/
def quoteVisibly (text : String) : String :=
  String.ofList ('"' :: text.toList.flatMap escapeVisibly ++ ['"'])

end Lox.Text
