/-!
# The shortest decimal of a binary fraction

A binary floating-point number is written with the fewest decimal digits that
still read back as the same number; of several such decimals the nearest one is
taken, and of two equally near ones the even one.

The search is exact: the number is a fraction of natural numbers, the reals
that round to it form an interval around it, and for each number of digits the
two neighbours of the number on that decimal grid are tested.
-/

namespace NameRecovery.Decimal

/-- A power of two. -/
def twoTo (n : Nat) : Nat :=
  Nat.pow 2 n

/-- A power of ten. -/
def tenTo (n : Nat) : Nat :=
  Nat.pow 10 n

/-- A positive number `mantissa * 2 ^ exponent`, together with the fact whether
the next smaller number of the format is only half as far away as the next
larger one. -/
structure Binary where
  /-- The integral part of the representation. -/
  mantissa : Nat
  /-- The power of two. -/
  exponent : Int
  /-- The gap below is half the gap above. -/
  narrowBelow : Bool

/-- The magnitude of a finite double-precision number given by its bits. -/
def Binary.ofBits (bits : Nat) : Binary :=
  let fraction := bits % twoTo 52
  let biased : Nat := bits / twoTo 52 % twoTo 11
  if biased = 0 then ⟨fraction, -1074, false⟩
  else ⟨fraction + twoTo 52, Int.ofNat biased - 1075, fraction == 0 && decide (1 < biased)⟩

/-- A decimal `digits * 10 ^ exponent`. -/
structure Numeral where
  /-- The digits, read as a number. -/
  digits : Nat
  /-- The power of ten of the last digit. -/
  exponent : Int
  deriving Repr, DecidableEq

/-- A positive fraction scaled so that its quarter-gap is a whole number: the
number itself is `value / scale`, and the reals that round to it reach from
`low / scale` to `high / scale`, ends included when `closed`. -/
structure Interval where
  /-- Numerator of the number. -/
  value : Nat
  /-- Numerator of the lower end. -/
  low : Nat
  /-- Numerator of the upper end. -/
  high : Nat
  /-- The common denominator. -/
  scale : Nat
  /-- Do the ends round to the number too? -/
  closed : Bool

/-- The interval of reals that round to a binary fraction. -/
def Binary.interval (b : Binary) : Interval :=
  let up := twoTo (b.exponent - 2).toNat
  let scale := twoTo (2 - b.exponent).toNat
  { value := 4 * b.mantissa * up
    low := (4 * b.mantissa - if b.narrowBelow then 1 else 2) * up
    high := (4 * b.mantissa + 2) * up
    scale
    closed := b.mantissa % 2 == 0 }

/-- Does the decimal `digits * 10 ^ exponent` round to the number? -/
def Interval.holds (i : Interval) (d : Numeral) : Bool :=
  let point := d.digits * tenTo d.exponent.toNat * i.scale
  let grid := tenTo (-d.exponent).toNat
  if i.closed then decide (i.low * grid ≤ point) && decide (point ≤ i.high * grid)
  else decide (i.low * grid < point) && decide (point < i.high * grid)

/-- The least `e` with `value < 10 ^ e`, searched upwards from `e`. -/
def Interval.magnitude (i : Interval) : Nat → Int → Int
  | 0, e => e
  | fuel + 1, e =>
    if i.value * tenTo (-e).toNat < i.scale * tenTo e.toNat then e else i.magnitude fuel (e + 1)

/-- The best decimal on the grid of multiples of `10 ^ exponent`, if one rounds
to the number. -/
def Interval.onGrid? (i : Interval) (exponent : Int) : Option Numeral :=
  let numerator := i.value * tenTo (-exponent).toNat
  let denominator := i.scale * tenTo exponent.toNat
  let floor := numerator / denominator
  let below : Numeral := ⟨floor, exponent⟩
  let above : Numeral := ⟨floor + 1, exponent⟩
  let twice := 2 * (numerator % denominator)
  match i.holds below, i.holds above with
  | true, true =>
    if twice < denominator || (twice == denominator && floor % 2 == 0) then some below
    else some above
  | true, false => some below
  | false, true => some above
  | false, false => none

/-- The best decimal with the fewest digits, starting with `count` digits. -/
def Interval.shortestFrom (i : Interval) (magnitude : Int) : Nat → Nat → Numeral
  | 0, count => ⟨i.value * tenTo (count - magnitude).toNat / i.scale, magnitude - count⟩
  | fuel + 1, count =>
    match i.onGrid? (magnitude - count) with
    | some d => d
    | none => i.shortestFrom magnitude fuel (count + 1)

/-- Without zeros at the end. -/
def Numeral.normal (d : Numeral) : Nat → Numeral
  | 0 => d
  | fuel + 1 =>
    if d.digits % 10 == 0 && d.digits != 0 then
      (Numeral.mk (d.digits / 10) (d.exponent + 1)).normal fuel
    else d

/-- The shortest decimal that reads back as the number. -/
def Binary.shortest (b : Binary) : Numeral :=
  let i := b.interval
  (i.shortestFrom (i.magnitude 640 (-330)) 17 1).normal 20

/-! ## Written form -/

/-- How decimals are written: positionally when the first digit stands less than
`positionalBelow` places before the point and no more than `positionalZeros`
zeros follow it, else with an exponent of at least `exponentWidth` digits. -/
structure Format where
  /-- Longest integral part that is written out. -/
  positionalBelow : Int
  /-- Most zeros directly after the point that are written out. -/
  positionalZeros : Int
  /-- Least number of digits of an exponent. -/
  exponentWidth : Nat

/-- Numbers are written out between `10⁻⁴` and `10¹⁶`; exponents have two digits. -/
def Format.standard : Format := ⟨16, 3, 2⟩

/-- A decimal in the given format. -/
def Numeral.render (format : Format) (d : Numeral) : String :=
  let digits := Nat.toDigits 10 d.digits
  let point : Int := digits.length + d.exponent
  if point ≤ format.positionalBelow ∧ -point ≤ format.positionalZeros then
    if point ≤ 0 then
      "0." ++ String.ofList (List.replicate (-point).toNat '0' ++ digits)
    else
      let whole := digits.take point.toNat
      let zeros := List.replicate (point.toNat - digits.length) '0'
      let fraction := digits.drop point.toNat
      String.ofList (whole ++ zeros) ++ "." ++
        (if fraction.isEmpty then "0" else String.ofList fraction)
  else
    let exponent := point - 1
    let size := Nat.toDigits 10 exponent.natAbs
    let padding := List.replicate (format.exponentWidth - size.length) '0'
    let tail := digits.drop 1
    String.ofList (digits.take 1) ++
      (if tail.isEmpty then "" else "." ++ String.ofList tail) ++
      "e" ++ (if exponent < 0 then "-" else "+") ++ String.ofList (padding ++ size)

/-- The names of the values that have no decimal. -/
structure Specials where
  /-- The name of a result that is not a number. -/
  undefined : String
  /-- The name of the unbounded value. -/
  infinite : String

/-- A double-precision number as its shortest decimal. -/
def render (specials : Specials) (x : Float) : String :=
  let bits := x.toBits.toNat
  let sign := if twoTo 63 ≤ bits then "-" else ""
  if bits / twoTo 52 % twoTo 11 = 2047 then
    if bits % twoTo 52 = 0 then sign ++ specials.infinite else specials.undefined
  else if bits % twoTo 63 = 0 then sign ++ "0.0"
  else sign ++ (Binary.ofBits (bits % twoTo 63)).shortest.render Format.standard

/-- The double-precision number nearest to `digits * 10 ^ exponent`. -/
def toFloat (digits : Nat) (exponent : Int) : Float :=
  let size : Int := (Nat.toDigits 10 digits).length
  if digits = 0 ∨ size + exponent < -400 then 0.0
  else if 400 < size + exponent then 1.0 / 0.0
  else Float.ofScientific digits (decide (exponent < 0)) exponent.natAbs

end NameRecovery.Decimal
