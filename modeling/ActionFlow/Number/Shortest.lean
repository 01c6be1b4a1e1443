import ActionFlow.Number.Binary

/-!
# Shortest decimal text

A finite number is written with the fewest digits that read back as the same number of its format.
All numbers between two bounds read back as it: the bounds are halfway to its neighbours, and they
belong to the interval when the number is even. Among the grids of 1, 2, … digits the first one
with a point in the interval is taken, and on it the point nearest to the number.

`Layout.double` and `Layout.single` say where positional notation ends.
-/

namespace ActionFlow.Number

/-- A decimal number: its digits, and the power of ten of the first of them. -/
structure Decimal where
  digits : List Char
  exponent : Int
deriving DecidableEq, Repr

/-- A positive number with the interval of the numbers that read back as it, over one denominator. -/
structure Interval where
  low : Nat
  value : Nat
  high : Nat
  den : Nat
  /-- Whether the bounds belong to the interval. -/
  closed : Bool
deriving DecidableEq, Repr

namespace Interval

/-- The interval of a finite positive magnitude. The gap below a power of two is half as wide as
    the gap above it. -/
def ofMagnitude (f : Format) (magnitude : Nat) : Interval :=
  let (m, q) := f.decode magnitude
  let gap := if m = Nat.pow 2 f.fraction ∧ f.leastExponent < q then 1 else 2
  let s := Ratio.scaled 1 (q - 2)
  ⟨(4 * m - gap) * s.num, 4 * m * s.num, (4 * m + 2) * s.num, s.den, m % 2 == 0⟩

/-- Whether the value is at least `10 ^ k`. -/
def atLeastPower (i : Interval) (k : Int) : Bool :=
  if 0 ≤ k then i.den * Nat.pow 10 k.toNat ≤ i.value else i.den ≤ i.value * Nat.pow 10 (-k).toNat

/-- The greatest `k` with `10 ^ k` at most the value: an estimate from the binary length that is
    at most one off, then a comparison. -/
def floorLog10 (i : Interval) : Int :=
  let guess := (((i.value.log2 : Int) - (i.den.log2 : Int)) * 1233) / 4096
  if i.atLeastPower (guess + 1) then guess + 1
  else if i.atLeastPower guess then guess
  else guess - 1

/-- Whether `num / den` lies in the interval. -/
def contains (i : Interval) (num den : Nat) : Bool :=
  if i.closed then i.low * den ≤ num * i.den && num * i.den ≤ i.high * den
  else i.low * den < num * i.den && num * i.den < i.high * den

/-- The multiple of `10 ^ k` nearest to the value among the value's two neighbours on that grid
    that lie in the interval; of two at the same distance the even one. -/
def onGrid? (i : Interval) (k : Int) : Option Nat :=
  let grid := Ratio.powerOfTen k
  let top := i.value * grid.den
  let step := i.den * grid.num
  let lower := top / step
  let lowerIn := i.contains (lower * grid.num) grid.den
  let upperIn := i.contains ((lower + 1) * grid.num) grid.den
  let rest := 2 * (top % step)
  match lowerIn, upperIn with
  | true, true =>
    if rest < step then some lower
    else if step < rest then some (lower + 1)
    else some (lower + lower % 2)
  | true, false => some lower
  | false, true => some (lower + 1)
  | false, false => none

/-- The shortest decimal in the interval, looking at grids of `count` digits and more, with at
    most `tries` grids. -/
def shortestFrom (i : Interval) (e : Int) (count : Nat) : Nat → Option (Nat × Int)
  | 0 => none
  | tries + 1 =>
    let k := e - count + 1
    match i.onGrid? k with
    | some n => some (n, k)
    | none => shortestFrom i e (count + 1) tries

end Interval

/-- The fewest digits that read back as a finite positive magnitude, without trailing zeros. -/
def shortest (f : Format) (magnitude : Nat) : Decimal :=
  let i := Interval.ofMagnitude f magnitude
  match i.shortestFrom i.floorLog10 1 17 with
  | some (n, k) =>
    let ds := Nat.toDigits 10 n
    let kept := (ds.reverse.dropWhile (· == '0')).reverse
    ⟨kept, k + ds.length - 1⟩
  | none => ⟨['0'], 0⟩

/-- The exponents of the first digit for which a number is written positionally. -/
structure Layout where
  least : Int
  greatest : Int
deriving DecidableEq, Repr

/-- Numbers of 64 bits are positional from `0.00001` up to sixteen digits. -/
def Layout.double : Layout := ⟨-5, 15⟩

/-- Numbers of 32 bits are positional from `0.000001` up to thirteen digits. -/
def Layout.single : Layout := ⟨-6, 12⟩

/-- Positional text with at least one digit on each side of the point. -/
def Decimal.positional (d : Decimal) : List Char :=
  if 0 ≤ d.exponent then
    let width := d.exponent.toNat + 1
    let whole := d.digits.take width
    let part := d.digits.drop width
    whole ++ List.replicate (width - whole.length) '0' ++ '.' :: (if part.isEmpty then ['0'] else part)
  else
    '0' :: '.' :: List.replicate ((-d.exponent).toNat - 1) '0' ++ d.digits

/-- Text with one digit before the point and a signed exponent; the point stands only before
    further digits. -/
def Decimal.scientific (d : Decimal) : List Char :=
  let mantissa := match d.digits with
    | [] => []
    | [c] => [c]
    | c :: cs => c :: '.' :: cs
  let sign := if d.exponent < 0 then '-' else '+'
  mantissa ++ 'e' :: sign :: Nat.toDigits 10 d.exponent.natAbs

/-- The text of a decimal. -/
def Decimal.text (form : Layout) (d : Decimal) : List Char :=
  if form.least ≤ d.exponent ∧ d.exponent ≤ form.greatest then d.positional else d.scientific

/-- The text of a magnitude with its sign; there is none for numbers that are not finite. -/
def signedText? (f : Format) (form : Layout) (negative : Bool) (magnitude : Nat) :
    Option (List Char) :=
  if f.infinity ≤ magnitude then none
  else
    let body := if magnitude = 0 then ['0', '.', '0'] else (shortest f magnitude).text form
    some (if negative then '-' :: body else body)

/-- The text of a number of 32 bits, if it is finite. -/
def Single.text? (x : Single) : Option (List Char) :=
  signedText? single Layout.single x.negative x.magnitude

/-- The text of a number of 64 bits, if it is finite. -/
def Double.text? (x : Double) : Option (List Char) :=
  signedText? double Layout.double x.negative x.magnitude

end ActionFlow.Number
