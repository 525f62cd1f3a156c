/-!
# Widths

The whole numbers that fit a number of bits, with and without a sign.
-/
namespace LayeredConfig.Width

/-- How many numbers fit a number of bits. -/
def count (bits : Nat) : Nat := Nat.pow 2 bits

/-- The largest number without a sign that fits a number of bits. -/
def unsignedMax (bits : Nat) : Nat := count bits - 1

/-- The smallest number with a sign that fits a number of bits: half of the numbers are below
zero. -/
def signedMin (bits : Nat) : Int := -(count (bits - 1) : Int)

/-- The largest number with a sign that fits a number of bits. -/
def signedMax (bits : Nat) : Int := (count (bits - 1) : Int) - 1

/-- The number fits a number of bits with a sign. -/
def fitsSigned (bits : Nat) (i : Int) : Bool :=
  decide (signedMin bits ≤ i ∧ i ≤ signedMax bits)

/-- The number fits a number of bits with or without a sign. -/
def fits (bits : Nat) (i : Int) : Bool :=
  decide (signedMin bits ≤ i ∧ i ≤ unsignedMax bits)

end LayeredConfig.Width
