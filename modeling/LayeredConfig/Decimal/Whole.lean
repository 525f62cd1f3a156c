import LayeredConfig.Width
/-!
# Whole numbers in texts

Reading a text as a whole number in decimal digits. Leading zeros and a plus sign are allowed,
blanks are not.
-/
namespace LayeredConfig.Decimal

/-- The number that a list of decimal digits stands for; there must be at least one. -/
def digitsValue? (cs : List Char) : Option Nat :=
  if cs.isEmpty || !cs.all Char.isDigit then none
  else some (cs.foldl (fun n c => 10 * n + (c.toNat - '0'.toNat)) 0)

/-- The number from zero to `limit` that a text stands for. -/
def natural? (limit : Nat) (text : String) : Option Nat :=
  let digits := match text.toList with
    | '+' :: cs => cs
    | cs => cs
  (digitsValue? digits).filter (· ≤ limit)

/-- The whole number of 64 bits with a sign that a text stands for. -/
def integer? (text : String) : Option Int :=
  let read := match text.toList with
    | '+' :: cs => (digitsValue? cs).map Int.ofNat
    | '-' :: cs => (digitsValue? cs).map fun n => -Int.ofNat n
    | cs => (digitsValue? cs).map Int.ofNat
  read.filter (Width.fitsSigned 64)

end LayeredConfig.Decimal
