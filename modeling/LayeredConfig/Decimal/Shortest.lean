import LayeredConfig.Width
/-!
# Shortest decimals

The shortest decimal that reads back as a given finite binary64 number: the number is taken apart
into a whole coefficient and a power of two, and the grids of 1, 2, … 17 significant digits are
searched in exact arithmetic for a point of the interval of reals that round to the number.
-/
namespace LayeredConfig.Decimal

/-- A positive finite binary64 number as `coefficient * 2 ^ power`; `isEdge` holds where the gap to
the next smaller number is half the gap to the next larger one. -/
structure Dyadic where
  coefficient : Nat
  power : Int
  isEdge : Bool

/-- The magnitude of a number, from its bits: eleven of exponent and fifty-two of fraction. -/
def Dyadic.ofBits (bits : UInt64) : Dyadic :=
  let fractions := Width.count 52
  let fraction := bits.toNat % fractions
  let exponent := bits.toNat / fractions % Width.count 11
  if exponent = 0 then ⟨fraction, -1074, false⟩
  else ⟨fractions + fraction, Int.ofNat exponent - 1075, fraction == 0 && exponent > 1⟩

/-- A positive rational number. -/
structure Ratio where
  num : Nat
  den : Nat

/-- The ratio `n * 2 ^ p * 10 ^ k`. -/
def Ratio.scaled (n : Nat) (p k : Int) : Ratio :=
  ⟨n * Nat.pow 2 p.toNat * Nat.pow 10 k.toNat, Nat.pow 2 (-p).toNat * Nat.pow 10 (-k).toNat⟩

def Ratio.le (a b : Ratio) : Bool := a.num * b.den ≤ b.num * a.den

def Ratio.lt (a b : Ratio) : Bool := a.num * b.den < b.num * a.den

/-- Digits read as one whole number, with the power of ten that they count. -/
structure Digits where
  whole : Nat
  power : Int
  deriving DecidableEq, Repr

/-- The reals that round to a dyadic number lie between its two halfway points, which belong to the
interval if the coefficient is even. Everything is counted in quarters of the last binary place. -/
def Dyadic.holds (d : Dyadic) (c : Digits) : Bool :=
  let low := Ratio.scaled (4 * d.coefficient - if d.isEdge then 1 else 2) (d.power - 2) 0
  let high := Ratio.scaled (4 * d.coefficient + 2) (d.power - 2) 0
  let x := Ratio.scaled c.whole 0 c.power
  if d.coefficient % 2 = 0 then low.le x && x.le high else low.lt x && x.lt high

/-- The largest `e` with `10 ^ e` not above the number: an estimate from the binary length that is
at most one off, set right by a comparison. -/
def Dyadic.decimalExponent (d : Dyadic) : Int :=
  let guess := (d.power + d.coefficient.log2) * 1233 / 4096
  let value := Ratio.scaled d.coefficient d.power 0
  if (Ratio.scaled 1 0 (guess + 1)).le value then guess + 1
  else if value.lt (Ratio.scaled 1 0 guess) then guess - 1
  else guess

/-- Removes final zeros, at most `fuel` of them. -/
def Digits.strip : Nat → Digits → Digits
  | 0, c => c
  | fuel + 1, c =>
    if c.whole % 10 = 0 && c.whole != 0 then strip fuel ⟨c.whole / 10, c.power + 1⟩ else c

/-- The point of the grid of `places` significant digits that rounds to the number, if there is
one. Only the two neighbours of the number can be; of two hits the nearer is taken, and at equal
distance the even one. -/
def Dyadic.onGrid? (d : Dyadic) (exponent : Int) (places : Nat) : Option Digits :=
  let unit := exponent - (places : Int) + 1
  let scaled := Ratio.scaled d.coefficient d.power (-unit)
  let below := scaled.num / scaled.den
  let rest := scaled.num % scaled.den
  let down : Digits := ⟨below, unit⟩
  let up : Digits := ⟨below + 1, unit⟩
  match d.holds down, d.holds up with
  | false, false => none
  | true, false => some down
  | false, true => some up
  | true, true =>
    if 2 * rest < scaled.den || (2 * rest = scaled.den && below % 2 = 0) then some down
    else some up

/-- Searches the grids from `places` digits upwards, `fuel` of them. -/
def Dyadic.search (d : Dyadic) (exponent : Int) : Nat → Nat → Digits
  | 0, places => ⟨d.coefficient, places⟩
  | fuel + 1, places =>
    match d.onGrid? exponent places with
    | some c => c.strip 20
    | none => d.search exponent fuel (places + 1)

/-- The shortest decimal digits of a finite number other than zero, without its sign. Seventeen
places are always enough. -/
def shortest (bits : UInt64) : Digits :=
  let d := Dyadic.ofBits bits
  d.search d.decimalExponent 17 1

end LayeredConfig.Decimal
