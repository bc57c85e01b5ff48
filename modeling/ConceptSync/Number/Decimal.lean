import ConceptSync.Number.Double

set_option autoImplicit false
set_option relaxedAutoImplicit false

/-!
Decimal numerals of floating point numbers. Writing takes the fewest digits that read back, of
those the nearest to the value. Reading scales a whole number of at most 64 bits by a power of
ten, rounding after every step.
-/

namespace ConceptSync

/-- The numeral `digits * 10 ^ exponent`. -/
structure Decimal where
  digits : Nat
  exponent : Int
deriving DecidableEq, Repr

namespace Decimal

/-- Which of two equally near numerals is written. -/
inductive Tie where
  | even
  | up
deriving DecidableEq, Repr

def length (n : Nat) : Nat := (Nat.toDigits 10 n).length

/-- The exponent of the leading digit of a positive magnitude in units. -/
def leadingExponent (units : Nat) : Int :=
  if Double.unit ≤ units then length (units / Double.unit) - 1
  else -(length (Double.unit / units) : Int)

/-- The multiple of `10 ^ exponent` that reads back as the magnitude of a rank, the nearer one if
both neighbours do. -/
def onGrid (tie : Tie) (rank : Nat) (exponent : Int) : Option Nat :=
  let here := Double.unitsOfRank rank
  let scale := Nat.pow 10 (-exponent).toNat
  let step := 2 * Double.unit * Nat.pow 10 exponent.toNat
  -- all sizes are doubled, so that the middle between two neighbours is whole
  let lower := (Double.unitsOfRank (rank - 1) + here) * scale
  let upper := (here + Double.unitsOfRank (rank + 1)) * scale
  let reads (n : Nat) : Bool :=
    -- a numeral in the middle is read as the neighbour of even rank
    if rank % 2 = 0 then decide (lower ≤ n * step ∧ n * step ≤ upper)
    else decide (lower < n * step ∧ n * step < upper)
  let below := 2 * here * scale / step
  let rest := 2 * here * scale % step
  match reads below, reads (below + 1) with
  | false, false => none
  | true, false => some below
  | false, true => some (below + 1)
  | true, true =>
    if 2 * rest < step then some below
    else if step < 2 * rest then some (below + 1)
    else match tie with
      | .up => some (below + 1)
      | .even => some (if below % 2 = 0 then below else below + 1)

/-- Move trailing zeros of the digits into the exponent. -/
def trim : Nat → Decimal → Decimal
  | 0, d => d
  | fuel + 1, d =>
    if d.digits ≠ 0 ∧ d.digits % 10 = 0 then trim fuel ⟨d.digits / 10, d.exponent + 1⟩ else d

/-- The first grid of at most `fuel` digits, counted from the coarsest, that has a numeral. -/
def search (tie : Tie) (rank : Nat) : Nat → Int → Decimal
  | 0, exponent => ⟨0, exponent⟩
  | fuel + 1, exponent =>
    match onGrid tie rank exponent with
    | some digits => trim 20 ⟨digits, exponent⟩
    | none => search tie rank fuel (exponent - 1)

/-- The shortest numeral that reads back as the magnitude of a rank. Seventeen digits are always
enough. -/
def shortest (tie : Tie) (rank : Nat) : Decimal :=
  if rank = 0 then ⟨0, 0⟩
  else search tie rank 18 (leadingExponent (Double.unitsOfRank rank))

/-- A number divided by `10 ^ n`, by at most `10 ^ 308` at a time, until it vanishes. -/
def scaleDown (x : Double) (n : Nat) : Double :=
  if _h : 308 < n then
    if x.rank = 0 then x else scaleDown (x.div (Double.tenPow 308)) (n - 308)
  else x.div (Double.tenPow n)
termination_by n
decreasing_by omega

/-- The number read from a numeral: its digits rounded, then scaled. Nothing when it is out of
range. -/
def toDouble? (d : Decimal) : Option Double :=
  let x := Double.ofInt d.digits
  if d.exponent < 0 then some (scaleDown x (-d.exponent).toNat)
  else if d.digits = 0 then some x
  else if 308 < d.exponent then none
  else
    let y := x.mul (Double.tenPow d.exponent.toNat)
    if y.isInfinite then none else some y

/-- Whether the number nearest to a numeral is infinite. A leading digit below the place of
`10 ^ 308` is too small for that, one above it too large for anything else. -/
def overflows (d : Decimal) : Bool :=
  let leading := d.exponent + length d.digits - 1
  if d.digits = 0 ∨ leading < 308 then false
  else if 308 < leading then true
  else
    let units := d.digits * Nat.pow 10 d.exponent.toNat * Double.unit
    (Double.nearest false units (Nat.pow 10 (-d.exponent).toNat)).isInfinite

example : overflows ⟨1797693134862315807, 290⟩ = false ∧
    overflows ⟨1797693134862315808, 290⟩ = true := by decide +kernel
example : overflows ⟨0, 999⟩ = false ∧ overflows ⟨1, 999⟩ = true := by decide +kernel

structure Layout where
  /-- Which leading exponents are written without exponent notation. -/
  isPositional : Int → Bool
  /-- Whether a whole number keeps a fraction of one zero. -/
  keepsFraction : Bool
  tie : Tie

def zeros (n : Nat) : String := String.ofList (List.replicate n '0')

/-- A numeral without exponent. -/
def positional (keepsFraction : Bool) (d : Decimal) : String :=
  let digits := toString d.digits
  let leading := d.exponent + digits.length
  if 0 ≤ d.exponent then
    digits ++ zeros d.exponent.toNat ++ (if keepsFraction then ".0" else "")
  else if 0 < leading then
    String.ofList (digits.toList.take leading.toNat) ++ "." ++
      String.ofList (digits.toList.drop leading.toNat)
  else "0." ++ zeros (-leading).toNat ++ digits

/-- A numeral with one digit before the point and a signed exponent. -/
def scientific (d : Decimal) : String :=
  let digits := (toString d.digits).toList
  let leading := d.exponent + digits.length - 1
  let fraction := match digits.drop 1 with
    | [] => ""
    | rest => "." ++ String.ofList rest
  String.ofList (digits.take 1) ++ fraction ++ (if leading < 0 then "e-" else "e+") ++
    toString leading.natAbs

def Layout.write (layout : Layout) (x : Double) : String :=
  let d := shortest layout.tie x.rank
  let leading := d.exponent + (length d.digits : Int) - 1
  (if x.negative then "-" else "") ++
    (if layout.isPositional leading then positional layout.keepsFraction d else scientific d)

/-- Numbers inside documents: positional from `1e-5` up to `1e16`, always told apart from integers,
halves to the even digit. -/
def document : Layout where
  isPositional e := decide (-5 ≤ e ∧ e ≤ 15)
  keepsFraction := true
  tie := .even

/-- Numbers inside sentences: never an exponent, whole numbers without fraction, halves upwards. -/
def sentence : Layout where
  isPositional _ := true
  keepsFraction := false
  tie := .up

end Decimal

end ConceptSync
