/-!
The shortest decimal that reads back as a given double. A finite double is an exact
`mantissa * 2 ^ exponent`, and the reals that round to it form an interval around it. The
coarsest grid of multiples of a power of ten with a point in that interval has the fewest
digits, and of its points the nearest is taken.
-/

namespace Lox.Decimal

/-- The size of a finite double: exactly `mantissa * 2 ^ exponent`. -/
structure Magnitude where
  mantissa : Nat
  exponent : Int
  /-- The next double below is at half the distance of the next one above. -/
  closeBelow : Bool
  deriving DecidableEq, Repr

/-- What a double stands for. -/
inductive Double where
  | finite (negative : Bool) (size : Magnitude)
  | infinite (negative : Bool)
  | notANumber
  deriving DecidableEq, Repr

/-- Reads a double off its sign, exponent and fraction bits. -/
def Double.ofBits (bits : UInt64) : Double :=
  let pattern : Nat := bits.toNat
  let negative := pattern / Nat.pow 2 63 = 1
  let power : Nat := pattern / Nat.pow 2 52 % 2048
  let fraction : Nat := pattern % Nat.pow 2 52
  if power = 2047 then
    if fraction = 0 then .infinite negative else .notANumber
  else if power = 0 then
    .finite negative ⟨fraction, -1074, false⟩
  else
    .finite negative ⟨Nat.pow 2 52 + fraction, (power : Int) - 1075, fraction = 0 && power ≠ 1⟩

/-- What a double stands for. -/
def Double.ofFloat (x : Float) : Double := Double.ofBits x.toBits

/-- Which of two equally near decimals is taken. -/
inductive Tie where
  | up
  | toEven
  deriving DecidableEq, Repr

/-- A decimal `digits * 10 ^ exponent`. -/
structure Numeral where
  digits : Nat
  exponent : Int
  deriving DecidableEq, Repr

/-- Factors that bring `f / 4 * 2 ^ exponent` and `d * 10 ^ place` to one scale: they compare as
`f * numerator` and `d * denominator` do. -/
def scale (exponent place : Int) : Nat × Nat :=
  (Nat.pow 2 exponent.toNat * Nat.pow 10 (-place).toNat,
    4 * Nat.pow 2 (-exponent).toNat * Nat.pow 10 place.toNat)

/-- The point of the grid of multiples of `10 ^ place` that is nearest to the number, if one
reads back as it. The interval's ends read back when the mantissa is even. -/
def Magnitude.onGrid? (size : Magnitude) (tie : Tie) (place : Int) : Option Nat :=
  let (numerator, denominator) := scale size.exponent place
  let value := 4 * size.mantissa * numerator
  let low := (4 * size.mantissa - (if size.closeBelow then 1 else 2)) * numerator
  let high := (4 * size.mantissa + 2) * numerator
  let closed := size.mantissa % 2 = 0
  let readsBack := fun digits : Nat =>
    let point := digits * denominator
    low < point && point < high || (closed && (point = low || point = high))
  let below := value / denominator
  let excess := value % denominator
  let above := below + 1
  let preferAbove :=
    if 2 * excess = denominator then
      match tie with
      | .up => true
      | .toEven => below % 2 = 1
    else decide (denominator < 2 * excess)
  match readsBack below, readsBack above with
  | true, true => some (if preferAbove then above else below)
  | true, false => some below
  | false, true => some above
  | false, false => none

/-- Tries ever finer grids, at most `budget` of them beyond the first. -/
def Magnitude.coarsest (size : Magnitude) (tie : Tie) : Nat → Int → Numeral
  | 0, place => ⟨(size.onGrid? tie place).getD 0, place⟩
  | budget + 1, place =>
    match size.onGrid? tie place with
    | some digits => ⟨digits, place⟩
    | none => size.coarsest tie budget (place - 1)

/-- A power of ten beyond the number: its binary exponent times `log10 2`, rounded up. -/
def Magnitude.firstPlace (size : Magnitude) : Int :=
  ((size.mantissa.log2 : Int) + size.exponent + 2) * 30103 / 100000 + 1

/-- The shortest decimal that reads back as the number. Nineteen grids suffice, since every
interval is wider than a unit of the seventeenth digit. -/
def Magnitude.shortest (size : Magnitude) (tie : Tie) : Numeral :=
  if size.mantissa = 0 then ⟨0, 0⟩ else size.coarsest tie 24 size.firstPlace

/-- The number as an integer, if it is one. -/
def Magnitude.integer? (size : Magnitude) : Option Nat :=
  if 0 ≤ size.exponent then some (size.mantissa * Nat.pow 2 size.exponent.toNat)
  else
    let unit := Nat.pow 2 (-size.exponent).toNat
    if size.mantissa % unit = 0 then some (size.mantissa / unit) else none

end Lox.Decimal
