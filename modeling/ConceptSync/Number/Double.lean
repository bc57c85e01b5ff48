set_option autoImplicit false
set_option relaxedAutoImplicit false

/-!
Binary floating point numbers with 53 bits of precision. A number is a sign and the rank of its
magnitude among all magnitudes, so that neighbouring ranks are neighbouring numbers. Every
magnitude is a whole number of units of `2 ^ -1074`, which makes sums and comparisons exact
integer arithmetic followed by one rounding.
-/

namespace ConceptSync

/-- The rank of the infinite magnitude. -/
def Double.infinityRank : Nat := 0x7FF0000000000000

/-- A signed magnitude, finite or infinite. Ranks below `2 ^ 52` are subnormal. -/
structure Double where
  negative : Bool
  rank : Nat
  rank_le : rank ≤ Double.infinityRank
deriving DecidableEq, Repr

namespace Double

/-- How many units make one. -/
def unit : Nat := 1 <<< 1074

/-- The magnitude of a rank in units. The infinite rank stands for the first power of two that is
out of range. -/
def unitsOfRank (rank : Nat) : Nat :=
  if rank < 0x20000000000000 then rank
  else (rank % 0x10000000000000 + 0x10000000000000) <<< (rank / 0x10000000000000 - 1)

/-- The rank whose magnitude is nearest to `n / d` units, of two equally near ones the even. -/
def nearestRank (n d : Nat) : Nat :=
  let shift := (n / d).log2 - 52
  let step := d <<< shift
  let whole := n / step
  let rest := n % step
  let rounded := if step < 2 * rest ∨ (2 * rest = step ∧ whole % 2 = 1) then whole + 1 else whole
  -- rounding up to the next power of two gives the next rank by itself
  min (shift <<< 52 + rounded) infinityRank

theorem nearestRank_le (n d : Nat) : nearestRank n d ≤ infinityRank :=
  Nat.min_le_right _ _

/-- The number nearest to `± n / d` units. -/
def nearest (negative : Bool) (n d : Nat) : Double :=
  ⟨negative, nearestRank n d, nearestRank_le n d⟩

def zero : Double := ⟨false, 0, Nat.zero_le _⟩

def negativeZero : Double := ⟨true, 0, Nat.zero_le _⟩

def magnitude (x : Double) : Nat := unitsOfRank x.rank

/-- The exact value in units. -/
def value (x : Double) : Int := if x.negative then -(x.magnitude : Int) else x.magnitude

def isInfinite (x : Double) : Bool := x.rank == infinityRank

/-- Equality of values: both zeros are equal. -/
def eqv (x y : Double) : Bool := x.value == y.value

def lt (x y : Double) : Bool := decide (x.value < y.value)

def neg (x : Double) : Double := { x with negative := !x.negative }

def ofInt (n : Int) : Double := nearest (decide (n < 0)) (n.natAbs * unit) 1

/-- The rounded sum. An infinite operand is the sum; an exact zero is negative only when both
operands are. -/
def add (x y : Double) : Double :=
  if x.isInfinite then x
  else if y.isInfinite then y
  else
    let sum := x.value + y.value
    if sum = 0 then (if x.negative && y.negative then negativeZero else zero)
    else nearest (decide (sum < 0)) sum.natAbs 1

def sub (x y : Double) : Double := add x (neg y)

def mul (x y : Double) : Double :=
  nearest (x.negative != y.negative) (x.magnitude * y.magnitude) unit

def div (x y : Double) : Double :=
  nearest (x.negative != y.negative) (x.magnitude * unit) y.magnitude

def isWhole (x : Double) : Bool := x.magnitude % unit == 0

def truncate (x : Double) : Int :=
  let whole := x.magnitude / unit
  if x.negative then -(whole : Int) else whole

/-- The number nearest to `10 ^ n`. -/
def tenPow (n : Nat) : Double := nearest false (Nat.pow 10 n * unit) 1

example : (ofInt 1).rank = 0x3FF0000000000000 := by decide +kernel
example : (tenPow 308).isInfinite = false ∧ (tenPow 309).isInfinite = true := by decide +kernel
example : add (div (ofInt 1) (ofInt 10)) (div (ofInt 2) (ofInt 10)) =
    ⟨false, 0x3FD3333333333334, by decide⟩ := by decide +kernel
example : (mul (tenPow 300) (tenPow 300)).isInfinite = true := by decide +kernel

end Double

end ConceptSync
