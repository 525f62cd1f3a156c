import LayeredConfig.Decimal.Shortest
/-!
# Layout of decimal numbers

How the digits of a floating-point number are laid out as text.
-/
namespace LayeredConfig.Decimal

/-- Which numbers are written positionally, by the power of ten of their first digit. -/
structure Layout where
  lowest : Int
  highest : Int

/-- Numbers from `0.00001` up to below `10 ^ 16` are written positionally and always show a
fraction; the others have an exponent with its sign and show a fraction only if it is not zero. -/
def Layout.standard : Layout := ⟨-5, 15⟩

def zeros (n : Nat) : String := String.ofList (List.replicate n '0')

def Layout.digits (layout : Layout) (c : Digits) : String :=
  let text := toString c.whole
  let first := c.power + (text.length : Int) - 1
  let chars := text.toList
  if layout.lowest ≤ first && first ≤ layout.highest then
    if 0 ≤ c.power then text ++ zeros c.power.toNat ++ ".0"
    else if 0 ≤ first then
      let whole := chars.take (first.toNat + 1)
      String.ofList whole ++ "." ++ String.ofList (chars.drop (first.toNat + 1))
    else "0." ++ zeros (-first - 1).toNat ++ text
  else
    let fraction := chars.drop 1
    String.ofList (chars.take 1) ++ (if fraction.isEmpty then "" else "." ++ String.ofList fraction)
      ++ "e" ++ (if first < 0 then "-" else "+") ++ toString first.natAbs

/-- The text of a finite number: the fewest digits that read back as the same number. The sign of
zero is kept. -/
def text (x : Float) : String :=
  let bits := x.toBits
  let sign := if bits.toNat < Width.count 63 then "" else "-"
  let size := bits.toNat % Width.count 63
  sign ++ if size = 0 then "0.0" else Layout.standard.digits (shortest (UInt64.ofNat size))

end LayeredConfig.Decimal
