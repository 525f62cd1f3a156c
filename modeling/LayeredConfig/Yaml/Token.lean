import LayeredConfig.Yaml.Block
import LayeredConfig.Yaml.Plain
import LayeredConfig.Yaml.Quoted
/-!
# Tokens

Cutting a YAML text into tokens. The indentation of block lists and maps becomes tokens of its own,
and so does the begin of a key, which is only known to be one when its colon has been found.

Directives, tags, anchors and aliases are not read.
-/
namespace LayeredConfig.Yaml

/-- A token. The last one tells that reading broke down where the next one would have begun. -/
inductive Token where
  | documentStart
  | documentEnd
  | blockList
  | blockMap
  | blockEnd
  | openList
  | closeList
  | openMap
  | closeMap
  | item
  | comma
  | key
  | value
  | scalar (text : String) (plain : Bool)
  | broken
  deriving DecidableEq, Repr

/-- A place where a key without a mark of its own may have begun. -/
structure KeyPlace where
  token : Nat
  required : Bool
  index : Nat
  line : Nat
  column : Nat

/-- The most bytes that a key without a mark of its own may take. -/
def keyLengthMax : Nat := 1024

/-- A key must end on its line and not be too long: at a later place this one cannot be the begin of
a key any more. -/
def KeyPlace.expired (place : KeyPlace) (c : Cursor) : Bool :=
  place.line < c.line || place.index + keyLengthMax < c.index

/-- What is known when a part of the text has been cut into tokens: the tokens, the last one first;
the column of the surrounding block and those of the blocks around it; whether a key may begin here;
and for the surrounding block and every open bracket or brace where a key may have begun. -/
structure Scan where
  cursor : Cursor
  tokens : List Token := []
  indent : Option Nat := none
  outer : List (Option Nat) := []
  keyAllowed : Bool := true
  keys : List (Option KeyPlace) := [none]

namespace Scan

/-- The place is within brackets or braces. -/
def inFlow (s : Scan) : Bool := s.keys.length > 1

def emit (s : Scan) (t : Token) : Scan := { s with tokens := t :: s.tokens }

/-- A token put before those that were added since there were `position` of them. -/
def emitAt (s : Scan) (position : Nat) (t : Token) : Scan :=
  let newer := s.tokens.length - position
  { s with tokens := s.tokens.take newer ++ t :: s.tokens.drop newer }

def advance (s : Scan) (n : Nat) : Scan := { s with cursor := s.cursor.advance n }

/-- Opens a block at a column, unless the surrounding block already stands there or further right;
its token goes to a position. -/
def openBlock (s : Scan) (column position : Nat) (t : Token) : Scan :=
  if s.inFlow || s.indent.any (column ≤ ·) then s
  else { s.emitAt position t with indent := some column, outer := s.indent :: s.outer }

/-- Closes the blocks that stand to the right of a column, `none` closing all. -/
def closeBlocks (column : Option Nat) : List (Option Nat) → Scan → Scan
  | [], s => s
  | previous :: outer, s =>
    if s.indent.any fun i => column.all (· < i) then
      closeBlocks column outer { s.emit .blockEnd with indent := previous, outer }
    else s

/-- Closes blocks at the current place; indentation counts only outside of brackets and braces. -/
def dedent (s : Scan) (column : Option Nat) : Scan :=
  if s.inFlow then s else closeBlocks column s.outer s

/-- Gives up a place where a key may have begun, unless there must be one. -/
def dropKey (s : Scan) : Except Failure Scan :=
  match s.keys with
  | some place :: rest =>
    if place.required then .error .malformed else .ok { s with keys := none :: rest }
  | _ => .ok s

def noteKey (s : Scan) : Except Failure Scan :=
  if s.keyAllowed then do
    let s ← s.dropKey
    let c := s.cursor
    let required := !s.inFlow && s.indent == some c.column
    pure { s with
      keys := some ⟨s.tokens.length, required, c.index, c.line, c.column⟩ :: s.keys.drop 1 }
  else .ok s

/-- Places that cannot be keys any more are given up, but where there must be a key this is
refused. -/
def expireKeys (s : Scan) : Except Failure Scan := do
  let keys ← s.keys.mapM fun place =>
    match place.filter (·.expired s.cursor) with
    | some gone => if gone.required then throw .malformed else pure none
    | none => pure place
  pure { s with keys }

/-- The tokens before the first one of which it is not known yet whether it begins a key. -/
def certain (s : Scan) : List Token :=
  let doubtful := s.keys.filterMap fun place =>
    (place.filter fun p => !p.expired s.cursor).map KeyPlace.token
  s.tokens.reverse.take (doubtful.min?.getD s.tokens.length)

/-- Passes over blanks, comments and line ends, and over a byte order mark at the begin of a line,
which takes a column. -/
def skipBlanks : Nat → Scan → Scan
  | 0, s => s
  | fuel + 1, s =>
    let tabs := s.inFlow || !s.keyAllowed
    let c := s.cursor
    let c := if c.column == 0 && c.sees '\ufeff' then c.advance 1 else c
    let c := (c.takeWhile fun x => x == ' ' || (tabs && x == '\t')).2
    let c := if c.sees '#' then c.restOfLine.2 else c
    match c.lineBreak? with
    | some (_, next) =>
      skipBlanks fuel { s with cursor := next, keyAllowed := s.keyAllowed || !s.inFlow }
    | none => { s with cursor := c }

/-- A marker that begins or ends a document. -/
def marker (s : Scan) (t : Token) : Except Failure Scan := do
  let s ← (s.dedent none).dropKey
  pure ({ s with keyAllowed := false }.advance 3 |>.emit t)

def openFlow (s : Scan) (t : Token) : Except Failure Scan := do
  let s ← s.noteKey
  pure ({ s with keys := none :: s.keys, keyAllowed := true }.advance 1 |>.emit t)

def closeFlow (s : Scan) (t : Token) : Except Failure Scan := do
  let s ← s.dropKey
  let keys := if s.inFlow then s.keys.drop 1 else s.keys
  pure ({ s with keys, keyAllowed := false }.advance 1 |>.emit t)

def comma (s : Scan) : Except Failure Scan := do
  let s ← s.dropKey
  pure ({ s with keyAllowed := true }.advance 1 |>.emit .comma)

def item (s : Scan) : Except Failure Scan := do
  if !s.inFlow && !s.keyAllowed then throw .malformed
  let s ← (s.openBlock s.cursor.column s.tokens.length .blockList).dropKey
  pure ({ s with keyAllowed := true }.advance 1 |>.emit .item)

def markedKey (s : Scan) : Except Failure Scan := do
  if !s.inFlow && !s.keyAllowed then throw .malformed
  let s ← (s.openBlock s.cursor.column s.tokens.length .blockMap).dropKey
  pure ({ s with keyAllowed := !s.inFlow }.advance 1 |>.emit .key)

/-- The colon of a value. If a key may have begun before it, there it did begin. -/
def colon (s : Scan) : Except Failure Scan :=
  match s.keys with
  | some place :: rest =>
    let s := { s with keys := none :: rest }.emitAt place.token .key
    let s := s.openBlock place.column place.token .blockMap
    .ok ({ s with keyAllowed := false }.advance 1 |>.emit .value)
  | _ =>
    if !s.inFlow && !s.keyAllowed then .error .malformed
    else
      let s := s.openBlock s.cursor.column s.tokens.length .blockMap
      .ok ({ s with keyAllowed := !s.inFlow }.advance 1 |>.emit .value)

def block (s : Scan) (literal : Bool) : Except Failure Scan := do
  let s ← s.dropKey
  let (text, next) ← Block.read literal s.indent (s.cursor.advance 1)
  pure ({ s with cursor := next, keyAllowed := true }.emit (.scalar text false))

def quoted (s : Scan) (quote : Char) : Except Failure Scan := do
  let s ← s.noteKey
  let (text, next) ← Quoted.read quote (s.cursor.rest.length + 1) .empty (s.cursor.advance 1)
  pure ({ s with cursor := next, keyAllowed := false }.emit (.scalar text false))

def plain (s : Scan) : Except Failure Scan := do
  let s ← s.noteKey
  let found ← Plain.read s.inFlow ((s.indent.map (· + 1)).getD 0) s.cursor
  pure ({ s with cursor := found.rest, keyAllowed := found.newLine }.emit
    (.scalar (String.ofList found.text) true))

/-- Characters that cannot begin a plain scalar, or only some of the time. -/
def indicators : List Char :=
  ['-', '?', ':', ',', '[', ']', '\x7b', '\x7d', '#', '&', '*', '!', '|', '>', '\'', '\x22', '%',
    '@', '\x60']

def token (s : Scan) (x : Char) : Except Failure Scan :=
  let c := s.cursor
  let stands := s.inFlow || c.gapAhead 1
  if isBlank x || (c.column == 0 && x == '%') then .error .malformed
  else if c.atMarker '-' then s.marker .documentStart
  else if c.atMarker '.' then s.marker .documentEnd
  else if x == '[' then s.openFlow .openList
  else if x == '\x7b' then s.openFlow .openMap
  else if x == ']' then s.closeFlow .closeList
  else if x == '\x7d' then s.closeFlow .closeMap
  else if x == ',' then s.comma
  else if x == '-' && c.gapAhead 1 then s.item
  else if x == '?' && stands then s.markedKey
  else if x == ':' && stands then s.colon
  else if x == '|' && !s.inFlow then s.block true
  else if x == '>' && !s.inFlow then s.block false
  else if x == '\'' || x == '\x22' then s.quoted x
  else if !indicators.contains x || x == '-' || (!s.inFlow && (x == '?' || x == ':')) then s.plain
  else .error .malformed

/-- All tokens of a text, one after the other; where reading breaks down, those that are certain
until then. -/
def run : Nat → Scan → Except Failure (List Token)
  | 0, _ => .error .malformed
  | fuel + 1, s => do
    let next ← (skipBlanks (s.cursor.rest.length + 1) s).expireKeys
    match next.cursor.rest with
    | [] =>
      let last ← (next.dedent none).dropKey
      pure last.tokens.reverse
    | x :: _ =>
      match (next.dedent (some next.cursor.column)).token x with
      | .ok next => run fuel next
      | .error .breakdown => pure (s.certain ++ [.broken])
      | .error .malformed => throw .malformed

end Scan

/-- A character that may stand in a text. -/
def isPrintable (c : Char) : Bool :=
  let n := c.toNat
  n == 9 || n == 10 || n == 13 || (0x20 ≤ n && n ≤ 0x7e) || n == 0x85 || (0xa0 ≤ n && n ≤ 0xd7ff)
    || (0xe000 ≤ n && n ≤ 0xfffd) || 0x10000 ≤ n

def Token.ofText (text : String) : Except Failure (List Token) :=
  let cs := text.toList
  if cs.all isPrintable then Scan.run (cs.length + 1) { cursor := { rest := cs } }
  else .error .malformed

end LayeredConfig.Yaml
