/-!
# The shortest decimal that reads back

A finite binary floating-point number is `m · 2 ^ e`.  The reals that round to it
form an interval around it, closed exactly when `m` is even.  Of all decimals in
that interval this module chooses one with the fewest digits, among those the
nearest, and between two equally near ones the larger in size.

A grid of `n`-digit decimals that meets the interval meets it in one of the two
grid points next to the number itself.  So it is enough to test those two for
`n = 1, 2, …`; the first grid with a point inside wins.  All comparisons are made
on natural numbers.
-/

namespace AmqpEnvelope.Decimal

/-- Layout of a binary interchange format. -/
structure BinaryFormat where
  /-- Width of the stored fraction. -/
  fractionBits : Nat
  /-- Width of the stored exponent. -/
  exponentBits : Nat
  /-- Decimal digits that tell any two numbers of the format apart. -/
  digits : Nat
deriving DecidableEq, Repr

/-- Single precision. -/
def binary32 : BinaryFormat := ⟨23, 8, 9⟩

/-- Double precision. -/
def binary64 : BinaryFormat := ⟨52, 11, 17⟩

/-- A power of two. -/
def twoTo (n : Nat) : Nat := Nat.pow 2 n

/-- A power of ten. -/
def tenTo (n : Nat) : Nat := Nat.pow 10 n

/-- What a bit pattern stands for; a finite number is
`significand · 2 ^ exponent`. -/
inductive BinaryNumber where
  | nan
  | infinite (negative : Bool)
  | finite (negative : Bool) (significand : Nat) (exponent : Int)
      (atPowerOfTwo : Bool)
deriving DecidableEq, Repr

/-- Read a bit pattern.  The last field of a finite number says that the numbers
below it are twice as dense as those above. -/
def BinaryFormat.read (format : BinaryFormat) (bits : Nat) : BinaryNumber :=
  let fraction := bits % twoTo format.fractionBits
  let biased := bits / twoTo format.fractionBits % twoTo format.exponentBits
  let negative := bits / twoTo (format.fractionBits + format.exponentBits) % 2 == 1
  let bias : Int := twoTo (format.exponentBits - 1) - 1 + format.fractionBits
  if biased = twoTo format.exponentBits - 1 then
    if fraction = 0 then .infinite negative else .nan
  else if biased = 0 then .finite negative fraction (1 - bias) false
  else .finite negative (fraction + twoTo format.fractionBits) (biased - bias)
    (fraction = 0 && biased != 1)

/-- The decimal `coefficient · 10 ^ exponent`. -/
structure Number where
  coefficient : Nat
  exponent : Int
deriving DecidableEq, Repr

/-- The interval of a number in quarters of its unit, over a common denominator:
a quarter is `up / down`. -/
structure Interval where
  low : Nat
  centre : Nat
  high : Nat
  closed : Bool
  up : Nat
  down : Nat
deriving DecidableEq, Repr

/-- The reals that round to `significand · 2 ^ exponent`. -/
def Interval.around (significand : Nat) (exponent : Int) (atPowerOfTwo : Bool) : Interval where
  low := 4 * significand - (if atPowerOfTwo then 1 else 2)
  centre := 4 * significand
  high := 4 * significand + 2
  closed := significand % 2 == 0
  up := twoTo (exponent - 2).toNat
  down := twoTo (2 - exponent).toNat

/-- The decimal lies in the interval. -/
def Interval.holds (i : Interval) (d : Number) : Bool :=
  let point := d.coefficient * tenTo d.exponent.toNat * i.down
  let scale := i.up * tenTo (-d.exponent).toNat
  if i.closed then i.low * scale ≤ point && point ≤ i.high * scale
  else i.low * scale < point && point < i.high * scale

/-- The largest grid point of the given exponent that is not above the centre. -/
def Interval.floor (i : Interval) (exponent : Int) : Nat :=
  i.centre * i.up * tenTo (-exponent).toNat / (tenTo exponent.toNat * i.down)

/-- The upper of the two grid points next to the centre is at least as near as the
lower one. -/
def Interval.upperIsNearer (i : Interval) (exponent : Int) : Bool :=
  let grid := tenTo exponent.toNat * i.down
  let rest := i.centre * i.up * tenTo (-exponent).toNat % grid
  grid ≤ 2 * rest

/-- The better of the two grid points next to the centre that lie in the interval. -/
def Interval.pick (i : Interval) (exponent : Int) : Option Number :=
  let lower : Number := ⟨i.floor exponent, exponent⟩
  let upper : Number := ⟨i.floor exponent + 1, exponent⟩
  match i.holds lower, i.holds upper with
  | true, true => some (if i.upperIsNearer exponent then upper else lower)
  | true, false => some lower
  | false, true => some upper
  | false, false => none

/-- The exponent `d` with `10 ^ (d - 1) ≤ centre < 10 ^ d`, found by counting the
digits of the centre after a shift that leaves no leading zero. -/
def Interval.magnitude (i : Interval) : Int :=
  let shift := Nat.log2 i.down + 1
  (Nat.toDigits 10 (i.centre * i.up * tenTo shift / i.down)).length - (shift : Int)

/-- The shortest decimal of a positive finite number.  The first grid has the power of ten
above the centre as its only candidate, to which a number just below it may be rounded. -/
def shortest (format : BinaryFormat) (significand : Nat) (exponent : Int)
    (atPowerOfTwo : Bool) : Number :=
  let i := Interval.around significand exponent atPowerOfTwo
  let d := i.magnitude
  match (List.range (format.digits + 1)).findSome? fun (n : Nat) => i.pick (d - n) with
  | some decimal => decimal
  | none => ⟨i.floor (d - format.digits), d - format.digits⟩

/-- Positional notation: no exponent, a point only before a fraction, and one zero
before a point that would stand first. -/
def Number.positional (d : Number) : String :=
  let digits := Nat.toDigits 10 d.coefficient
  if 0 ≤ d.exponent then String.ofList (digits ++ List.replicate d.exponent.toNat '0')
  else
    let places := (-d.exponent).toNat
    let padded := List.replicate (places + 1 - digits.length) '0' ++ digits
    let whole := padded.length - places
    String.ofList (padded.take whole ++ '.' :: padded.drop whole)

/-- The text of a bit pattern. -/
def BinaryFormat.text (format : BinaryFormat) (bits : Nat) : String :=
  let signed (negative : Bool) (body : String) : String := if negative then "-" ++ body else body
  match format.read bits with
  | .nan => "NaN"
  | .infinite negative => signed negative "inf"
  | .finite negative 0 _ _ => signed negative "0"
  | .finite negative significand exponent atPowerOfTwo =>
      signed negative (shortest format significand exponent atPowerOfTwo).positional

end AmqpEnvelope.Decimal
