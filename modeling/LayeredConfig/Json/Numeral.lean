import LayeredConfig.Value.Fields
import LayeredConfig.Width
/-!
# Numerals of JSON documents

A numeral is an optional minus sign, whole digits without a leading zero, and optionally a fraction
and an exponent. One without fraction and exponent that fits 64 bits is a whole number, every other
one a floating-point number: as many leading digits as fit 64 bits, scaled by one power of ten.
-/
namespace LayeredConfig.Json

/-- The parts of a numeral: the digits before and behind the point and the exponent. -/
structure Numeral where
  negative : Bool
  whole : List Nat
  fraction : Option (List Nat)
  exponent : Option Int

/-- The number that a decimal digit stands for. -/
def digit? (c : Char) : Option Nat :=
  if '0' ≤ c ∧ c ≤ '9' then some (c.toNat - '0'.toNat) else none

/-- The digits at the front, and what follows them. -/
def digits : List Char → List Nat × List Char
  | [] => ([], [])
  | c :: cs =>
    match digit? c with
    | some d => let (ds, rest) := digits cs; (d :: ds, rest)
    | none => ([], c :: cs)

def ofDigits (ds : List Nat) : Nat :=
  ds.foldl (fun n d => 10 * n + d) 0

def someDigits (cs : List Char) : Option (List Nat × List Char) :=
  match digits cs with
  | ([], _) => none
  | found => some found

/-- The digits of an exponent behind its letter, with an optional sign. -/
def exponent (cs : List Char) : Option (Int × List Char) :=
  match cs with
  | '+' :: cs => (someDigits cs).map fun (ds, rest) => (Int.ofNat (ofDigits ds), rest)
  | '-' :: cs => (someDigits cs).map fun (ds, rest) => (-Int.ofNat (ofDigits ds), rest)
  | cs => (someDigits cs).map fun (ds, rest) => (Int.ofNat (ofDigits ds), rest)

/-- The whole digits: a single zero, or digits that do not begin with zero. -/
def wholeDigits (cs : List Char) : Option (List Nat × List Char) :=
  match digits cs with
  | ([], _) => none
  | (0 :: _ :: _, _) => none
  | found => some found

/-- A numeral at the front of the text, and what follows it. -/
def numeral (cs : List Char) : Option (Numeral × List Char) := do
  let (negative, cs) := match cs with
    | '-' :: cs => (true, cs)
    | cs => (false, cs)
  let (whole, cs) ← wholeDigits cs
  let (fraction, cs) ← match cs with
    | '.' :: cs => (someDigits cs).map fun (ds, rest) => (some ds, rest)
    | cs => some (none, cs)
  let (power, cs) ← match cs with
    | 'e' :: cs | 'E' :: cs => (exponent cs).map fun (e, rest) => (some e, rest)
    | cs => some (none, cs)
  pure (⟨negative, whole, fraction, power⟩, cs)

/-- The largest significand. -/
def significandMax : Nat := Width.unsignedMax 64

/-- Appends whole digits to a significand while it fits; counts the digits left out. -/
def appendWhole : Nat → List Nat → Nat × Nat
  | sig, [] => (sig, 0)
  | sig, d :: ds =>
    if 10 * sig + d ≤ significandMax then appendWhole (10 * sig + d) ds else (sig, (d :: ds).length)

/-- Appends fraction digits to a significand while it fits; counts the digits taken. -/
def appendFraction : Nat → Nat → List Nat → Nat × Nat
  | sig, taken, [] => (sig, taken)
  | sig, taken, d :: ds =>
    if 10 * sig + d ≤ significandMax then appendFraction (10 * sig + d) (taken + 1) ds
    else (sig, taken)

/-- The power of ten nearest to `10 ^ n`. -/
def tenTo (n : Nat) : Float := Float.ofScientific 1 false n

/-- Divides by `10 ^ n`, in steps of the largest power of ten that a number can be. -/
def scaleDown (x : Float) (n : Nat) : Float :=
  if n ≤ 308 then x / tenTo n
  else if x == 0 then x
  else scaleDown (x / tenTo 308) (n - 308)
termination_by n

/-- The significand times a power of ten, unless the product is too large. -/
def scale (sig : Nat) (power : Int) : Option Float :=
  let x := Float.ofNat sig
  if power < 0 then some (scaleDown x power.natAbs)
  else if power ≤ 308 then
    let y := x * tenTo power.natAbs
    if y.isInf then none else some y
  else if x == 0 then some x
  else none

/-- The value of a numeral; a floating-point number that is too large has none. -/
def Numeral.value (n : Numeral) : Option Value :=
  let (sig, left) := appendWhole 0 n.whole
  let signed (x : Float) : Value := .float (if n.negative then -x else x)
  match n.fraction, n.exponent with
  | none, none =>
    if left = 0 then
      if !n.negative then some (.int sig)
      else if 0 < sig ∧ Width.fitsSigned 64 (-sig) then some (.int (-sig))
      else some (.float (-(Float.ofNat sig)))
    else (scale sig left).map signed
  | fraction, power =>
    let (sig, taken) := appendFraction sig 0 (fraction.getD [])
    (scale sig ((left : Int) - taken + power.getD 0)).map signed

end LayeredConfig.Json
