set_option autoImplicit false

namespace StackMachine

structure Binary64 where
  bits : UInt64
  deriving DecidableEq, Inhabited

namespace Binary64

/-- Units of 2^-1074 in the number one. -/
def unitsPerOne : Nat := 1 <<< 1074

def signBit : Nat := 0x8000000000000000

def binade : Nat := 0x10000000000000

def infinityRank : Nat := 2047 * binade

def rank (x : Binary64) : Nat := x.bits.toNat % signBit

def isNegative (x : Binary64) : Bool := decide (signBit ≤ x.bits.toNat)

def isNaN (x : Binary64) : Bool := decide (infinityRank < x.rank)

def isInfinite (x : Binary64) : Bool := x.rank == infinityRank

def isFinite (x : Binary64) : Bool := decide (x.rank < infinityRank)

def isZero (x : Binary64) : Bool := x.rank == 0

def ofRank (negative : Bool) (rank : Nat) : Binary64 :=
  ⟨UInt64.ofNat (if negative then signBit + rank else rank)⟩

def zero : Binary64 := ⟨0⟩
def nan : Binary64 := ⟨0x7ff8000000000000⟩
def infinity (negative : Bool) : Binary64 := ofRank negative infinityRank

def neg (x : Binary64) : Binary64 := ofRank (!x.isNegative) x.rank
def abs (x : Binary64) : Binary64 := ofRank false x.rank

/-- The value of a finite rank, in units. In the first binade ranks count units themselves, as they
do in the second; after that the step between neighbours doubles from binade to binade. -/
def rankUnits (rank : Nat) : Nat :=
  if rank < binade then rank else (binade + rank % binade) <<< (rank / binade - 1)

def units (x : Binary64) : Int :=
  if x.isNegative then -(rankUnits x.rank : Int) else rankUnits x.rank

/-- The rank whose value in units is nearest to the quotient. A tie goes to the even rank; from
half a step above the largest finite value on, the answer is infinity. -/
def nearestRank (numerator denominator : Nat) : Nat :=
  let shift := (numerator / denominator).log2 - 52
  let step := denominator <<< shift
  let below := numerator / step
  let rest := numerator % step
  let up := decide (step < 2 * rest) || (2 * rest == step && below % 2 == 1)
  -- A mantissa that rounds up to a power of two carries into the exponent by itself.
  min infinityRank (shift * binade + below + up.toNat)

def ofUnitsRatio (negative : Bool) (numerator denominator : Nat) : Binary64 :=
  ofRank negative (nearestRank numerator denominator)

def ofInt (value : Int) : Binary64 :=
  ofUnitsRatio (decide (value < 0)) (value.natAbs * unitsPerOne) 1

def hasFraction (x : Binary64) : Bool := x.units % unitsPerOne != 0

/-- Where a number stands in the order of values. The two zeros stand at one place. -/
def orderKey (x : Binary64) : Int := if x.isNegative then -(x.rank : Int) else x.rank

def lt (x y : Binary64) : Bool := !x.isNaN && !y.isNaN && decide (x.orderKey < y.orderKey)

def eqv (x y : Binary64) : Bool := !x.isNaN && !y.isNaN && x.orderKey == y.orderKey


/-- Of two finite numbers. A sum of zero is negative only when both terms are. -/
def addFinite (x y : Binary64) : Binary64 :=
  let sum := x.units + y.units
  if sum = 0 then ofRank (x.isNegative && y.isNegative) 0
  else ofUnitsRatio (decide (sum < 0)) sum.natAbs 1

def add (x y : Binary64) : Binary64 :=
  if x.isNaN || y.isNaN then nan
  else if x.isInfinite then
    if y.isInfinite && x.isNegative != y.isNegative then nan else x
  else if y.isInfinite then y
  else addFinite x y

def sub (x y : Binary64) : Binary64 := add x y.neg

def mul (x y : Binary64) : Binary64 :=
  let negative := x.isNegative != y.isNegative
  if x.isNaN || y.isNaN then nan
  else if x.isInfinite || y.isInfinite then
    if x.isZero || y.isZero then nan else infinity negative
  else ofUnitsRatio negative (rankUnits x.rank * rankUnits y.rank) unitsPerOne

def div (x y : Binary64) : Binary64 :=
  let negative := x.isNegative != y.isNegative
  if x.isNaN || y.isNaN then nan
  else if x.isInfinite then
    if y.isInfinite then nan else infinity negative
  else if y.isInfinite then ofRank negative 0
  else if y.isZero then
    if x.isZero then nan else infinity negative
  else ofUnitsRatio negative (rankUnits x.rank * unitsPerOne) (rankUnits y.rank)

def floorSqrt (square : Nat) : Nat :=
  if square = 0 then 0
  else
    let half := 2 * floorSqrt (square / 4)
    if (half + 1) * (half + 1) ≤ square then half + 1 else half
termination_by square
decreasing_by exact Nat.div_lt_self (Nat.pos_of_ne_zero ‹_›) (by decide)

/-- The rank nearest to the square root of a positive number of units, taken as a root of `square =
units * unitsPerOne`. Such a root lies far above the smallest steps, and never halfway between two
neighbours. -/
def nearestSqrtRank (square : Nat) : Nat :=
  let shift := square.log2 / 2 - 52
  let below := floorSqrt (square >>> (2 * shift))
  let up := decide (((2 * below + 1) * (2 * below + 1)) <<< (2 * shift) < 4 * square)
  shift * binade + below + up.toNat

def sqrt (x : Binary64) : Binary64 :=
  if x.isNaN then nan
  else if x.isZero then x
  else if x.isNegative then nan
  else if x.isInfinite then x
  else ofRank false (nearestSqrtRank (rankUnits x.rank * unitsPerOne))

def clampBelow (x : Binary64) : Binary64 := if lt zero x then x else zero

def truncate (x : Binary64) : Binary64 :=
  if x.isFinite then
    ofUnitsRatio x.isNegative (rankUnits x.rank / unitsPerOne * unitsPerOne) 1
  else x

def toInt64 (x : Binary64) : Int64 :=
  if x.isNaN then 0
  else if x.isInfinite then
    if x.isNegative then Int64.minValue else Int64.maxValue
  else Int64.ofInt (max Int64.minValue.toInt (min Int64.maxValue.toInt (x.units.tdiv unitsPerOne)))

def toUInt64 (x : Binary64) : UInt64 :=
  if x.isNaN || x.isNegative then 0
  else if x.isInfinite then UInt64.ofNat (UInt64.size - 1)
  else UInt64.ofNat (min (UInt64.size - 1) (rankUnits x.rank / unitsPerOne))

end Binary64

end StackMachine
