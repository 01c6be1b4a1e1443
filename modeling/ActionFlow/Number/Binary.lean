/-!
# Binary floating-point numbers

A finite number of a binary format is `m * 2 ^ q` with a bounded `m` and a least `q`. Numbers are
kept as bit patterns, and every operation is exact arithmetic on naturals followed by one rounding
to the nearest number, a tie going to the even one.

## Main definitions

- `Format`: how many fraction and exponent bits a format has (`single`, `double`).
- `Format.round`: the magnitude nearest to a quotient of naturals.
- `Format.decode`: the `m` and `q` of a magnitude.
- `Single`, `Double`: bit patterns of the two formats, with `Double.ofDecimal?`.

A magnitude is a bit pattern without its sign bit, read as a natural; magnitudes are ordered as the
numbers that they stand for, and the one after the greatest finite magnitude is infinity.
-/

namespace ActionFlow.Number

/-- The shape of a binary format. -/
structure Format where
  /-- Number of stored fraction bits. -/
  fraction : Nat
  /-- Number of exponent bits. -/
  exponent : Nat
deriving DecidableEq, Repr

/-- Numbers of 32 bits. -/
def single : Format := ⟨23, 8⟩

/-- Numbers of 64 bits. -/
def double : Format := ⟨52, 11⟩

/-- A quotient of naturals; the denominator is positive wherever one is built. -/
structure Ratio where
  num : Nat
  den : Nat
deriving DecidableEq, Repr

namespace Ratio

/-- The number `m * 2 ^ q`. -/
def scaled (m : Nat) (q : Int) : Ratio :=
  if 0 ≤ q then ⟨m * Nat.pow 2 q.toNat, 1⟩ else ⟨m, Nat.pow 2 (-q).toNat⟩

/-- The number `10 ^ k`. -/
def powerOfTen (k : Int) : Ratio :=
  if 0 ≤ k then ⟨Nat.pow 10 k.toNat, 1⟩ else ⟨1, Nat.pow 10 (-k).toNat⟩

/-- The product of two quotients. -/
def mul (a b : Ratio) : Ratio := ⟨a.num * b.num, a.den * b.den⟩

/-- The quotient of two quotients, the second of them positive. -/
def div (a b : Ratio) : Ratio := ⟨a.num * b.den, a.den * b.num⟩

/-- The whole number nearest to a quotient, a tie going to the even one. -/
def nearest (a : Ratio) : Nat :=
  let quo := a.num / a.den
  let rest := 2 * (a.num % a.den)
  if rest < a.den then quo
  else if a.den < rest then quo + 1
  else quo + quo % 2

/-- The greatest `k` with `2 ^ k` at most a positive quotient. -/
def floorLog2 (a : Ratio) : Int :=
  let k : Int := (a.num.log2 : Int) - (a.den.log2 : Int)
  if 0 ≤ k then
    if a.den * Nat.pow 2 k.toNat ≤ a.num then k else k - 1
  else
    if a.den ≤ a.num * Nat.pow 2 (-k).toNat then k else k - 1

end Ratio

namespace Format

/-- The least exponent `q` of a number `m * 2 ^ q` of the format. -/
def leastExponent (f : Format) : Int :=
  2 - (Nat.pow 2 (f.exponent - 1) : Nat) - (f.fraction : Int)

/-- The magnitude of infinity. -/
def infinity (f : Format) : Nat :=
  (Nat.pow 2 f.exponent - 1) * Nat.pow 2 f.fraction

/-- The magnitude nearest to a quotient, a tie going to the even one; quotients beyond the range
    become infinity. -/
def round (f : Format) (a : Ratio) : Nat :=
  if a.num = 0 then 0
  else
    let q := max f.leastExponent (a.floorLog2 - f.fraction)
    let m := (a.div (Ratio.scaled 1 q)).nearest
    min f.infinity ((q - f.leastExponent).toNat * Nat.pow 2 f.fraction + m)

/-- The `m` and `q` of a finite magnitude. -/
def decode (f : Format) (magnitude : Nat) : Nat × Int :=
  let field := magnitude / Nat.pow 2 f.fraction
  let low := magnitude % Nat.pow 2 f.fraction
  if field = 0 then (low, f.leastExponent)
  else (low + Nat.pow 2 f.fraction, f.leastExponent + field - 1)

/-- The exact value of a finite magnitude. -/
def value (f : Format) (magnitude : Nat) : Ratio :=
  let (m, q) := f.decode magnitude
  Ratio.scaled m q

/-- The product of two finite magnitudes, rounded. -/
def mul (f : Format) (a b : Nat) : Nat :=
  f.round ((f.value a).mul (f.value b))

/-- The quotient of two finite magnitudes, the second of them positive, rounded. -/
def div (f : Format) (a b : Nat) : Nat :=
  f.round ((f.value a).div (f.value b))

/-- The magnitude nearest to a power of ten. -/
def powerOfTen (f : Format) (k : Nat) : Nat :=
  f.round ⟨Nat.pow 10 k, 1⟩

end Format

/-- A number of the format `single`, as its bits. -/
structure Single where
  bits : UInt32
deriving DecidableEq, Repr

/-- A number of the format `double`, as its bits. -/
structure Double where
  bits : UInt64
deriving DecidableEq, Repr

namespace Single

/-- The number with a given sign and magnitude. -/
def ofParts (negative : Bool) (magnitude : Nat) : Single :=
  ⟨UInt32.ofNat (magnitude + if negative then 0x80000000 else 0)⟩

/-- Whether the sign bit is set. -/
def negative (x : Single) : Bool := 0x80000000 ≤ x.bits.toNat

/-- The bits below the sign bit. -/
def magnitude (x : Single) : Nat := x.bits.toNat % 0x80000000

/-- The number nearest to an integer. -/
def ofInt (n : Int) : Single :=
  ofParts (decide (n < 0)) (single.round ⟨n.natAbs, 1⟩)

end Single

namespace Double

/-- The number with a given sign and magnitude. -/
def ofParts (negative : Bool) (magnitude : Nat) : Double :=
  ⟨UInt64.ofNat (magnitude + if negative then 0x8000000000000000 else 0)⟩

/-- Whether the sign bit is set. -/
def negative (x : Double) : Bool := 0x8000000000000000 ≤ x.bits.toNat

/-- The bits below the sign bit. -/
def magnitude (x : Double) : Nat := x.bits.toNat % 0x8000000000000000

/-- The number nearest to an integer. -/
def ofInt (n : Int) : Double :=
  ofParts (decide (n < 0)) (double.round ⟨n.natAbs, 1⟩)

/-- The number of the smaller format nearest to a finite number; large ones become infinity. -/
def toSingle (x : Double) : Single :=
  if x.magnitude < double.infinity then
    Single.ofParts x.negative (single.round (double.value x.magnitude))
  else
    Single.ofParts x.negative single.infinity

/-- The number of the larger format with the value of a smaller one. -/
def ofSingle (x : Single) : Double :=
  if x.magnitude < single.infinity then
    ofParts x.negative (double.round (single.value x.magnitude))
  else
    ofParts x.negative double.infinity

/-- The greatest exponent for which the power of ten is finite. -/
def greatestPower : Nat := 308

/-- Divides a magnitude `steps` times by the greatest finite power of ten, each time rounded; once
    zero is reached no further step is made. -/
def divGreatestPower (magnitude : Nat) : Nat → Nat
  | 0 => magnitude
  | steps + 1 =>
    if magnitude = 0 then 0
    else divGreatestPower (double.div magnitude (double.powerOfTen greatestPower)) steps

/-- Divides a magnitude by `10 ^ n`: by the greatest finite power as long as the exponent is above
    it, then by what is left. -/
def divPowerOfTen (magnitude n : Nat) : Nat :=
  let steps := (n - 1) / greatestPower
  double.div (divGreatestPower magnitude steps) (double.powerOfTen (n - greatestPower * steps))

/-- The number `significand * 10 ^ exponent`, computed as the significand rounded to a number and
    then scaled by a rounded power of ten, so not always the nearest number. There is none when the
    result is beyond the range. -/
def ofDecimal? (negative : Bool) (significand : Nat) (exponent : Int) : Option Double :=
  let start := double.round ⟨significand, 1⟩
  if exponent < 0 then
    some (ofParts negative (divPowerOfTen start (-exponent).toNat))
  else if start = 0 then
    some (ofParts negative 0)
  else if greatestPower < exponent.toNat then
    none
  else
    let scaled := double.mul start (double.powerOfTen exponent.toNat)
    if scaled < double.infinity then some (ofParts negative scaled) else none

end Double

end ActionFlow.Number
