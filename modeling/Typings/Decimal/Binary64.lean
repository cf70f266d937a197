/-!
# Double precision numbers

**Values.** The values of the IEEE 754 binary64 format, written as a sign, a natural number and a
power of two. A decimal number is read by rounding it to the nearest of these values, ties to the
even one, in exact arithmetic. Only what readers and writers of documents need is here: a number is
rounded once, when it is read, and afterwards it is compared and written out.

**The digits.** Every positive binary64 value is the value nearest to infinitely many decimal
numbers. `shortest` picks, of those with the fewest digits, the one nearest to the value. It walks
through the decimal grids from coarse to fine and stops at the first one that has a point in the
interval of numbers which round to the value. Only the two neighbours of the value on the grid need
to be tried.

**The layout** says where the point goes, when an exponent is written and what the values without
digits are called.
-/

namespace Typings.Decimal

/-! ## Values -/

/-- A binary64 value. A finite one is `± mantissa · 2 ^ exponent` with
`mantissa < 2 ^ 53`, and `2 ^ 52 ≤ mantissa` unless `exponent` is the least one, `-1074`;
so each value is written in one way only, apart from the two zeros. -/
inductive Binary64 where
  | finite (negative : Bool) (mantissa : Nat) (exponent : Int)
  | infinite (negative : Bool)
  | nan
  deriving DecidableEq, Repr

/-- `num / den`, rounded to the nearest natural number, a half to the even one. -/
def divNearest (num den : Nat) : Nat :=
  let q := num / den
  let r := num % den
  if 2 * r < den then q
  else if den < 2 * r then q + 1
  else if q % 2 = 0 then q else q + 1

namespace Binary64

/-- The least exponent of a finite value. -/
def leastExponent : Int := -1074

/-- The greatest exponent of a finite value. -/
def greatestExponent : Int := 971

/-- The least mantissa of a value whose exponent is not the least one, `2 ^ 52`. -/
def normalMantissa : Nat := 4503599627370496

/-- A zero of the given sign. -/
def zero (negative : Bool) : Binary64 := .finite negative 0 leastExponent

/-- `base ^ exponent` as a fraction. -/
def powFraction (base : Nat) (exponent : Int) : Nat × Nat :=
  if 0 ≤ exponent then (base.pow exponent.toNat, 1) else (1, base.pow (-exponent).toNat)

/-- The greatest `k` with `2 ^ k ≤ num / den`, for positive `num` and `den`. -/
def floorLog2 (num den : Nat) : Int :=
  let k : Int := (Nat.log2 num : Int) - (Nat.log2 den : Int)
  let (p, q) := powFraction 2 k
  if p * den ≤ num * q then k else k - 1

/-- The value nearest to `num / den`, for positive `num` and `den`. -/
def ofFraction (negative : Bool) (num den : Nat) : Binary64 :=
  let exponent := max (floorLog2 num den - 52) leastExponent
  let (p, q) := powFraction 2 exponent
  let mantissa := divNearest (num * q) (den * p)
  let (mantissa, exponent) :=
    if mantissa = 2 * normalMantissa then (normalMantissa, exponent + 1)
    else (mantissa, exponent)
  if greatestExponent < exponent then .infinite negative
  else .finite negative mantissa exponent

/-- The value nearest to `± digits · 10 ^ exponent`. Numbers far outside the range are
recognised by their order of magnitude, so a huge exponent costs nothing. -/
def ofDecimal (negative : Bool) (digits : Nat) (exponent : Int) : Binary64 :=
  let magnitude : Int := (Nat.toDigits 10 digits).length + exponent
  if digits = 0 || magnitude < -330 then zero negative
  else if 330 < magnitude then .infinite negative
  else
    let (p, q) := powFraction 10 exponent
    ofFraction negative (digits * p) q

/-- Is the value a zero, of either sign? -/
def isZero : Binary64 → Bool
  | .finite _ m _ => m == 0
  | _ => false

/-- The value as an integer, if it is one. -/
def toInt? : Binary64 → Option Int
  | .finite negative m e =>
    let (p, q) := powFraction 2 e
    if m * p % q = 0 then
      let n : Int := ((m * p / q : Nat) : Int)
      some (if negative then -n else n)
    else none
  | _ => none

example : ofDecimal false 1 (-1) = .finite false 7205759403792794 (-56) := by decide +kernel

example : ofDecimal true 25 (-1) = .finite true 5629499534213120 (-51) := by decide +kernel

example : ofDecimal false 5 (-324) = .finite false 1 (-1074) := by decide +kernel

example : ofDecimal false 2 308 = .infinite false := by decide +kernel

example : toInt? (ofDecimal true 50 (-1)) = some (-5) := by decide +kernel

end Binary64

/-! ## The fewest digits that read back -/

/-- A decimal number `digits · 10 ^ exponent`. -/
structure Digits where
  digits : Nat
  exponent : Int
  deriving DecidableEq, Repr

/-- The numbers that round to one binary64 value, in units of a quarter of the distance
between neighbouring values: the value itself, and the two ends, which belong to the
interval exactly if `closed`. -/
structure Interval where
  low : Nat
  value : Nat
  high : Nat
  closed : Bool

/-- The interval of `mantissa · 2 ^ exponent`. Below a power of two the values lie twice
as close, so there the lower half of the interval is shorter. -/
def Interval.around (mantissa : Nat) (exponent : Int) : Interval where
  low :=
    if mantissa = Binary64.normalMantissa && Binary64.leastExponent < exponent
    then 4 * mantissa - 1
    else 4 * mantissa - 2
  value := 4 * mantissa
  high := 4 * mantissa + 2
  closed := mantissa % 2 = 0

/-- Is `c`, measured in units of which `q` are `p` units of the interval, inside it? -/
def Interval.contains (i : Interval) (p q c : Nat) : Bool :=
  if i.closed then i.low * p ≤ c * q && c * q ≤ i.high * p
  else i.low * p < c * q && c * q < i.high * p

/-- The point nearest to the value on the grid with spacing `10 ^ exponent`, if the
interval holds a point of this grid; `unit` is the exponent of the interval's unit, a
power of two. Of two points equally near, the even one. -/
def Interval.gridPoint? (i : Interval) (unit exponent : Int) : Option Nat :=
  let (p₂, q₂) := Binary64.powFraction 2 unit
  let (p₁₀, q₁₀) := Binary64.powFraction 10 exponent
  let p := p₂ * q₁₀
  let q := q₂ * p₁₀
  let below := i.value * p / q
  match i.contains p q below, i.contains p q (below + 1) with
  | true, true => some (divNearest (i.value * p) q)
  | true, false => some below
  | false, true => some (below + 1)
  | false, false => none

/-- The first grid with a point in the interval, from the spacing `10 ^ exponent` down. -/
def Interval.firstGrid (i : Interval) (unit : Int) : Nat → Int → Digits
  | 0, exponent => ⟨0, exponent⟩
  | grids + 1, exponent =>
    match i.gridPoint? unit exponent with
    | some c => ⟨c, exponent⟩
    | none => i.firstGrid unit grids (exponent - 1)

/-- The shortest decimal number that reads back as `mantissa · 2 ^ exponent`, for a
positive mantissa. Seventeen digits always read back, and the first grid tried is at
most three places above the value. -/
def shortest (mantissa : Nat) (exponent : Int) : Digits :=
  let above : Int := ((Nat.log2 mantissa : Int) + exponent + 1) * 30103 / 100000 + 1
  (Interval.around mantissa exponent).firstGrid (exponent - 2) 22 above

example : shortest 7205759403792794 (-56) = ⟨1, -1⟩ := by decide +kernel

example : shortest 1 (-1074) = ⟨5, -324⟩ := by decide +kernel

example : shortest 9007199254740991 971 = ⟨17976931348623157, 292⟩ := by decide +kernel

/-! ## Layouts -/

/-- The decisions of one written form. A number whose first digit stands for
`10 ^ k` is written without an exponent exactly if
`positionalFrom ≤ k < positionalBelow`. -/
structure Layout where
  positionalFrom : Int
  positionalBelow : Int
  exponentWidth : Nat
  infinity : String
  notANumber : String

/-- The digits of a natural number. -/
def digitsOf (n : Nat) : List Char := Nat.toDigits 10 n

/-- A number without an exponent; there is always a digit on either side of the point. -/
def positional (ds : List Char) (first : Int) : List Char :=
  if first < 0 then ['0', '.'] ++ List.replicate (-first - 1).toNat '0' ++ ds
  else
    let whole := first.toNat + 1
    let fraction := ds.drop whole
    ds.take whole ++ List.replicate (whole - ds.length) '0' ++ ['.'] ++
      (if fraction.isEmpty then ['0'] else fraction)

/-- A number with an exponent; the sign of the exponent is always written. -/
def scientific (width : Nat) (ds : List Char) (first : Int) : List Char :=
  let exponent := digitsOf first.natAbs
  ds.take 1 ++ (if ds.length ≤ 1 then [] else '.' :: ds.drop 1) ++
    ['e', if first < 0 then '-' else '+'] ++
    List.replicate (width - exponent.length) '0' ++ exponent

/-- A number as it is written under `layout`. -/
def Layout.write (layout : Layout) : Binary64 → String
  | .nan => layout.notANumber
  | .infinite negative => if negative then "-" ++ layout.infinity else layout.infinity
  | .finite negative mantissa exponent =>
    let shown := if mantissa = 0 then ⟨0, 0⟩ else shortest mantissa exponent
    let ds := digitsOf shown.digits
    let first := shown.exponent + ds.length - 1
    let body :=
      if layout.positionalFrom ≤ first && first < layout.positionalBelow
      then positional ds first
      else scientific layout.exponentWidth ds first
    String.ofList (if negative then '-' :: body else body)

/-- Numbers in messages and in the text of raw values. -/
def display : Layout := ⟨-4, 16, 2, "inf", "nan"⟩

/-- Numbers in JSON text, which also has words for the values that JSON lacks. -/
def literal : Layout := ⟨-4, 16, 2, "Infinity", "NaN"⟩

example : display.write (.ofDecimal false 1 0) = "1.0" := by decide +kernel

example : display.write (.ofDecimal true 0 0) = "-0.0" := by decide +kernel

example : display.write (.ofDecimal false 1 16) = "1e+16" := by decide +kernel

example : display.write (.ofDecimal false 1 (-5)) = "1e-05" := by decide +kernel

example : display.write (.ofDecimal false 12345 (-2)) = "123.45" := by decide +kernel

example : literal.write (.infinite true) = "-Infinity" := by decide +kernel

end Typings.Decimal
