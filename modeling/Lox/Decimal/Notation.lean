import Lox.Decimal.Shortest

/-!
The written forms of numbers. A layout fixes where positional notation ends and how an
exponent, a zero and a number beyond all decimals are written; the shortest decimal fills it.
-/

namespace Lox.Decimal

/-- Zeros to fill a gap in a number. -/
def zeros (count : Int) : String := String.ofList (List.replicate count.toNat '0')

/-- The decimal without exponent. The decimal point stands `point` digits to the right of the
first digit's left side; `fraction` is written when there is none. -/
def Numeral.positional (numeral : Numeral) (fraction : String) : String :=
  let digits := (toString numeral.digits).toList
  let point := digits.length + numeral.exponent
  if 0 ≤ numeral.exponent then
    String.ofList digits ++ zeros numeral.exponent ++ fraction
  else if 0 < point then
    String.ofList (digits.take point.toNat) ++ "." ++ String.ofList (digits.drop point.toNat)
  else
    "0." ++ zeros (-point) ++ String.ofList digits

/-- The decimal with one digit before the point and an exponent, whose plus sign is `plus`. -/
def Numeral.scientific (numeral : Numeral) (plus : String) : String :=
  let digits := (toString numeral.digits).toList
  let power : Int := digits.length + numeral.exponent - 1
  let mantissa :=
    match digits with
    | [] => ""
    | [digit] => String.singleton digit
    | digit :: more => String.singleton digit ++ "." ++ String.ofList more
  mantissa ++ "e" ++ (if power < 0 then "-" else plus) ++ toString power.natAbs

/-- The choices of a written form. -/
structure Layout where
  /-- The least and greatest count of digits before the point in positional notation; a number
  below one counts the zeros after its point negatively. -/
  leastPoint : Int
  greatestPoint : Int
  /-- The sign of an exponent that is not negative. -/
  plus : String
  /-- A negative zero keeps its sign. -/
  signedZero : Bool
  infinity : String
  negativeInfinity : String
  notANumber : String
  /-- The digit taken between two equally near ones. -/
  tie : Tie

/-- Writes a number in a layout; a number without fraction gets `.0` in positional notation. -/
def Layout.write (layout : Layout) (x : Float) : String :=
  match Double.ofFloat x with
  | .notANumber => layout.notANumber
  | .infinite negative => if negative then layout.negativeInfinity else layout.infinity
  | .finite negative size =>
    let sign := if negative && (size.mantissa ≠ 0 || layout.signedZero) then "-" else ""
    let numeral := size.shortest layout.tie
    let point := (toString numeral.digits).length + numeral.exponent
    if layout.leastPoint ≤ point && point ≤ layout.greatestPoint then
      sign ++ numeral.positional ".0"
    else
      sign ++ numeral.scientific layout.plus

/-- Number tokens on display: positional from `0.0001` to below `10 ^ 16`, zero unsigned. -/
def tokenLayout : Layout where
  leastPoint := -3
  greatestPoint := 16
  plus := ""
  signedZero := false
  infinity := "inf"
  negativeInfinity := "-inf"
  notANumber := "NaN"
  tie := .up

/-- Numbers in JSON: positional from `0.00001` to below `10 ^ 16`, and `null` for what JSON
cannot write. -/
def jsonLayout : Layout where
  leastPoint := -4
  greatestPoint := 16
  plus := "+"
  signedZero := true
  infinity := "null"
  negativeInfinity := "null"
  notANumber := "null"
  tie := .toEven

/-- Numbers as values: an integer in all its digits, any other number positionally in its
shortest decimal. Zero has no sign. -/
def plain (x : Float) : String :=
  match Double.ofFloat x with
  | .notANumber => "NaN"
  | .infinite negative => if negative then "-inf" else "inf"
  | .finite negative size =>
    let sign := if negative && size.mantissa ≠ 0 then "-" else ""
    match size.integer? with
    | some integer => sign ++ toString integer
    | none => sign ++ (size.shortest .up).positional ""

end Lox.Decimal
