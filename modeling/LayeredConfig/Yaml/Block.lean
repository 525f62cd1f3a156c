import LayeredConfig.Yaml.Buffer
/-!
# Block scalars

Scalars whose lines stand below a header: literal ones keep their line ends, folded ones turn single
line ends into spaces. The header may fix the indentation and say what happens to final line ends.
-/
namespace LayeredConfig.Yaml.Block

/-- What happens to the line ends at the end of a scalar. -/
inductive Chomping where
  | strip
  | clip
  | keep
  deriving DecidableEq, Repr

/-- What the header of a block scalar says. -/
structure Header where
  chomping : Chomping := .clip
  increment : Option Nat := none

def chomping? (c : Char) : Option Chomping :=
  if c == '+' then some .keep else if c == '-' then some .strip else none

/-- Reads a header behind its indicator: a sign and a digit other than zero in any order. -/
def header (c : Cursor) : Except Failure (Header × Cursor) :=
  let digit (c : Cursor) : Except Failure (Option Nat × Cursor) :=
    match c.rest with
    | x :: _ =>
      if x == '0' then .error .malformed
      else if x.isDigit then .ok (some (x.toNat - '0'.toNat), c.advance 1)
      else .ok (none, c)
    | [] => .ok (none, c)
  let sign (c : Cursor) : Option Chomping × Cursor :=
    match c.rest with
    | x :: _ => match chomping? x with
      | some s => (some s, c.advance 1)
      | none => (none, c)
    | [] => (none, c)
  match sign c with
  | (some s, c) => (digit c).map fun (n, c) => (⟨s, n⟩, c)
  | (none, c) => do
    match ← digit c with
    | (none, c) => pure ({}, c)
    | (n, c) =>
      let (s, c) := sign c
      pure (⟨s.getD .clip, n⟩, c)

/-- Passes over empty lines and the indentation of the next line. Gives the line ends, the largest
column that was reached, and the place. While the indentation is unknown all spaces belong to it. -/
def emptyLines (indent : Option Nat) : Nat → List Char → Nat → Cursor →
    Except Failure (List Char × Nat × Cursor)
  | 0, _, _, _ => .error .malformed
  | fuel + 1, breaks, widest, c =>
    let spaces := (c.rest.takeWhile (· == ' ')).length
    let inside (column : Nat) := indent.all (column < ·)
    let skipped := match indent with
      | none => spaces
      | some n => min spaces (n - c.column)
    let c := c.advance skipped
    let widest := max widest c.column
    if inside c.column && c.sees '\t' then .error .malformed
    else match c.lineBreak? with
      | some (kept, next) => emptyLines indent fuel (breaks ++ kept) widest next
      | none => .ok (breaks, widest, c)

/-- What has been read of a scalar: its text, the end of the last line and the empty lines behind
it, and whether the last line began with a blank. -/
structure Progress where
  text : Buffer := .empty
  lastBreak : List Char := []
  emptyBreaks : List Char := []
  afterBlank : Bool := false

/-- The text with what stands between the last line and the next one. -/
def Progress.joined (literal : Bool) (p : Progress) (blank : Bool) : Except Failure Buffer := do
  let folds := !literal && p.lastBreak == ['\n'] && !p.afterBlank && !blank
  let text ←
    if !folds then p.text.join p.lastBreak
    else if p.emptyBreaks.isEmpty then pure (p.text.push ' ')
    else pure p.text
  text.join p.emptyBreaks

/-- Reads lines as long as they have the indentation. -/
def lines (literal : Bool) (indent : Nat) :
    Nat → Progress → Cursor → Except Failure (Progress × Cursor)
  | 0, _, _ => .error .malformed
  | fuel + 1, p, c =>
    if c.column != indent || c.atEnd then .ok (p, c)
    else do
      let blank := (c.peek 0).any isBlank
      let text ← p.joined literal blank
      let (line, c) := c.restOfLine
      let (kept, c) := c.lineBreak?.getD ([], c)
      let (breaks, _, c) ← emptyLines (some indent) (c.rest.length + 1) [] 0 c
      lines literal indent fuel ⟨text.pushAll line, kept, breaks, blank⟩ c

/-- Reads a block scalar behind its indicator; `parent` is the column of the surrounding block. -/
def read (literal : Bool) (parent : Option Nat) (c : Cursor) :
    Except Failure (String × Cursor) := do
  let (head, c) ← header c
  let (_, c) := c.takeWhile isBlank
  let c := if c.sees '#' then c.restOfLine.2 else c
  if !c.atLineEnd then throw .malformed
  let c := match c.lineBreak? with
    | some (_, next) => next
    | none => c
  let least := max 1 ((parent.map (· + 1)).getD 0)
  let fixed := head.increment.map fun n => parent.getD 0 + n
  let (breaks, widest, c) ← emptyLines fixed (c.rest.length + 1) [] 0 c
  let indent := fixed.getD (max widest least)
  let (p, c) ← lines literal indent (c.rest.length + 1) { emptyBreaks := breaks } c
  let text ← match head.chomping with
    | .strip => pure p.text
    | .clip => p.text.join p.lastBreak
    | .keep => do (← p.text.join p.lastBreak).join p.emptyBreaks
  pure (String.ofList text.text, c)

end LayeredConfig.Yaml.Block
