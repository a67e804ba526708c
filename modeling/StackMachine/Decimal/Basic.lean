import StackMachine.Binary64.Basic

set_option autoImplicit false

namespace StackMachine

structure Decimal where
  negative : Bool
  coefficient : Nat
  exponent : Int
  deriving DecidableEq, Inhabited

namespace Decimal

def powerOfTen (exponent : Nat) : Nat := Nat.pow 10 exponent

/-- The nearest floating-point number. Exponents far outside the range of finite numbers are
settled without forming the power of ten. -/
def nearest (d : Decimal) : Binary64 :=
  if d.coefficient = 0 then .ofRank d.negative 0
  else if 400 < d.exponent then .infinity d.negative
  else if d.exponent + d.coefficient.log2 < -400 then .ofRank d.negative 0
  else .ofUnitsRatio d.negative
    (d.coefficient * powerOfTen d.exponent.toNat * Binary64.unitsPerOne)
    (powerOfTen (-d.exponent).toNat)

/-- Positional digits of `coefficient / 10 ^ places`. At least one digit stands before the point,
and the point only between digits. -/
def positional (coefficient places : Nat) : List Char :=
  let digits := Nat.toDigits 10 coefficient
  let padded := List.replicate (places + 1 - digits.length) '0' ++ digits
  let whole := padded.take (padded.length - places)
  let fraction := padded.drop (padded.length - places)
  if fraction.isEmpty then whole else whole ++ '.' :: fraction

def chars (d : Decimal) : List Char :=
  let digits := positional (d.coefficient * powerOfTen d.exponent.toNat) (-d.exponent).toNat
  if d.negative then '-' :: digits else digits

def splitSign : List Char → Bool × List Char
  | '-' :: rest => (true, rest)
  | '+' :: rest => (false, rest)
  | text => (false, text)

def splitFraction : List Char → List Char × List Char
  | '.' :: rest => (rest.takeWhile Char.isDigit, rest.dropWhile Char.isDigit)
  | text => ([], text)

def exponent? : List Char → Option Int
  | [] => some 0
  | letter :: rest =>
    if letter = 'e' || letter = 'E' then
      let (negative, digits) := splitSign rest
      if digits.isEmpty || !digits.all Char.isDigit then none
      else
        let power : Int := Nat.ofDigitChars 10 digits 0
        some (if negative then -power else power)
    else none

def parse? (text : List Char) : Option Decimal :=
  let (negative, unsigned) := splitSign text
  let whole := unsigned.takeWhile Char.isDigit
  let (fraction, rest) := splitFraction (unsigned.dropWhile Char.isDigit)
  if whole.isEmpty && fraction.isEmpty then none
  else (exponent? rest).map fun power =>
    ⟨negative, Nat.ofDigitChars 10 (whole ++ fraction) 0, power - fraction.length⟩

end Decimal

namespace Binary64

def parse? (text : String) : Option Binary64 :=
  (Decimal.parse? text.toList).bind fun d => if d.nearest.isFinite then some d.nearest else none


def exactDecimal (x : Binary64) : Decimal :=
  ⟨x.isNegative, rankUnits x.rank * Nat.pow 5 1074, -1074⟩

def gridDecimal (negative : Bool) (count : Nat) (grid : Int) : Decimal :=
  ⟨negative, count * Decimal.powerOfTen grid.toNat, min grid 0⟩

/-- Of the two neighbours of the number among the multiples of a power of ten, the nearer one that
reads back as the number. -/
def onGrid? (x : Binary64) (grid : Int) : Option Decimal :=
  let numerator := rankUnits x.rank * Decimal.powerOfTen (-grid).toNat
  let step := unitsPerOne * Decimal.powerOfTen grid.toNat
  let below := gridDecimal x.isNegative (numerator / step) grid
  let above := gridDecimal x.isNegative (numerator / step + 1) grid
  let rest := numerator % step
  -- An exact tie goes away from zero.
  let ordered := if step ≤ 2 * rest then [above, below] else [below, above]
  ordered.find? fun d => d.nearest == x

def coarsestGrid (x : Binary64) : Int :=
  (((rankUnits x.rank).log2 : Int) - 1073) * 30103 / 100000 + 2

/-- The decimal of a finite number other than zero. Seventeen digits always read back, so that the
coarse grids up to that many digits find it. -/
def shortestDecimal (x : Binary64) : Decimal :=
  ((List.range 21).findSome? fun i : Nat => x.onGrid? (x.coarsestGrid - i)).getD x.exactDecimal

def text (x : Binary64) : String :=
  if x.isNaN then "NaN"
  else if x.isInfinite then if x.isNegative then "-inf" else "inf"
  else if x.isZero then if x.isNegative then "-0" else "0"
  else String.ofList x.shortestDecimal.chars

def valueText (x : Binary64) : String := if x.isZero then "0" else x.text

end Binary64

end StackMachine
