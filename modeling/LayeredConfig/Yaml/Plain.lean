import LayeredConfig.Decimal.Whole
import LayeredConfig.Json.Numeral
import LayeredConfig.Json.Reader
import LayeredConfig.Yaml.Folding
/-!
# Plain scalars

Scalars without quotes: where they end, and which of them are null, truth values or numbers instead
of strings.
-/
namespace LayeredConfig.Yaml.Plain

/-! ### Extent -/

/-- A character that ends a plain scalar within brackets or braces. -/
def isFlowIndicator (c : Char) : Bool :=
  c == ',' || c == '[' || c == ']' || c == '\x7b' || c == '\x7d'

/-- Adds the characters up to the next blank or indicator, and the gap before them if there are any;
gives the gap that is left. Within brackets or braces a colon right before an indicator is
refused. -/
def word (inFlow : Bool) :
    Nat → Gap → Buffer → Cursor → Except Failure (Gap × Buffer × Cursor)
  | 0, _, _, _ => .error .malformed
  | fuel + 1, gap, b, c =>
    match c.rest with
    | [] => .ok (gap, b, c)
    | x :: _ =>
      let next := c.peek 1
      if c.gapAhead 0 then .ok (gap, b, c)
      else if inFlow && x == ':' && next.any (fun y => y == '?' || isFlowIndicator y) then
        .error .malformed
      else if (x == ':' && c.gapAhead 1) || (inFlow && isFlowIndicator x) then .ok (gap, b, c)
      else do
        let b ← gap.addTo b
        word inFlow fuel {} (b.push x) (c.advance 1)

/-- A plain scalar that was read: its text, the place behind it, and whether that place is on a line
of its own. -/
structure Read where
  text : List Char
  rest : Cursor
  newLine : Bool

/-- Reads words and the gaps between them; lines must not begin to the left of `indent` outside of
brackets and braces. -/
def words (inFlow : Bool) (indent : Nat) : Nat → Gap → Buffer → Cursor → Except Failure Read
  | 0, _, _, _ => .error .malformed
  | fuel + 1, gap, b, c =>
    if c.atDocumentMarker || c.sees '#' then .ok ⟨b.text, c, gap.hasBreak⟩
    else do
      let (gap, b, c) ← word inFlow (c.rest.length + 1) gap b c
      if !c.gapAhead 0 || c.atEnd then return ⟨b.text, c, gap.hasBreak⟩
      let (gap, c) ← Gap.read (some indent) (c.rest.length + 1) {} c
      if !inFlow && c.column < indent then return ⟨b.text, c, gap.hasBreak⟩
      words inFlow indent fuel gap b c

def read (inFlow : Bool) (indent : Nat) (c : Cursor) : Except Failure Read :=
  words inFlow indent (c.rest.length + 1) {} .empty c

/-! ### Meaning -/

def withoutPlus (cs : List Char) : List Char :=
  match cs with
  | '+' :: cs => cs
  | cs => cs

def withoutSign (cs : List Char) : List Char :=
  match cs with
  | '+' :: cs | '-' :: cs => cs
  | cs => cs

/-- Digits with a zero in front of others, which are no number. -/
def hasLeadingZero (cs : List Char) : Bool :=
  match withoutSign cs with
  | '0' :: d :: ds => (d :: ds).all Char.isDigit
  | _ => false

/-- The number that digits of a base stand for. -/
def inBase? (base : Nat) (cs : List Char) : Option Nat :=
  if cs.isEmpty then none
  else cs.foldl (fun n c => do
    let d ← Json.hexDigit? c
    if d < base then pure ((← n) * base + d) else none) (some 0)

/-- The magnitude of a whole number: digits, or those of another base behind its mark. -/
def magnitude? (cs : List Char) : Option Nat :=
  match cs with
  | '0' :: 'x' :: ds => inBase? 16 ds
  | '0' :: 'o' :: ds => inBase? 8 ds
  | '0' :: 'b' :: ds => inBase? 2 ds
  | ds => if hasLeadingZero ds then none else inBase? 10 ds

/-- The whole number that a scalar stands for. -/
def integer? (cs : List Char) : Option Int :=
  match cs with
  | '-' :: ds => (magnitude? ds).map fun n => -(n : Int)
  | cs => (magnitude? (withoutPlus cs)).map Int.ofNat

/-- The parts of a decimal number: digits, of which one must stand before or behind the point, and
an exponent. -/
def decimal? (cs : List Char) : Option (List Nat × List Nat × Int) :=
  let (whole, cs) := Json.digits cs
  let (fraction, cs) := match cs with
    | '.' :: cs => Json.digits cs
    | cs => ([], cs)
  if whole.isEmpty && fraction.isEmpty then none
  else match cs with
    | [] => some (whole, fraction, 0)
    | 'e' :: cs | 'E' :: cs =>
      match Json.exponent cs with
      | some (e, []) => some (whole, fraction, e)
      | _ => none
    | _ => none

/-- The power of ten from which on a number with a digit other than zero is too large. -/
def powerMax : Int := 400

/-- The number nearest to `digits * 10 ^ power`, unless that is too large. -/
def nearest? (digits : Nat) (power : Int) : Option Float :=
  let length := (toString digits).length
  if digits = 0 then some 0
  else if powerMax < power + length then none
  else if power + length < -powerMax then some 0
  else
    let x := Float.ofScientific digits (power < 0) power.natAbs
    if x.isInf then none else some x

/-- The floating-point number that a scalar stands for. -/
def float? (cs : List Char) : Option Float := do
  let (whole, fraction, exponent) ← decimal? (withoutSign cs)
  let x ← nearest? (Json.ofDigits (whole ++ fraction)) (exponent - fraction.length)
  pure (if cs.head? == some '-' then -x else x)

/-- The texts of the numbers that no finite number is; they have no value of their own. -/
def notFinite : List String :=
  [".inf", ".Inf", ".INF", "+.inf", "+.Inf", "+.INF", "-.inf", "-.Inf", "-.INF", ".nan", ".NaN",
    ".NAN"]

/-- Whole numbers in this range are read as such, be it to be refused. -/
def isWhole (i : Int) : Bool := Width.fits 128 i

/-- What a plain scalar stands for. A whole number of up to 128 bits that does not fit 64 bits is
refused; a longer one counts as a floating-point number. -/
def value? (text : String) : Option Value :=
  if ["", "~", "null", "Null", "NULL"].contains text || notFinite.contains text then some .null
  else if ["true", "True", "TRUE"].contains text then some (.bool true)
  else if ["false", "False", "FALSE"].contains text then some (.bool false)
  else
    let cs := text.toList
    match (integer? cs).filter isWhole with
    | some i => if Width.fits 64 i then some (.int i) else none
    | none =>
      if hasLeadingZero cs then some (.str text)
      else some ((float? cs).elim (.str text) .float)

end LayeredConfig.Yaml.Plain
