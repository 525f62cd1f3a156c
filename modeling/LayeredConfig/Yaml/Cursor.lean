/-!
# Cursors

A cursor is a place in a YAML text together with the characters that follow it. Lines end at a
line feed, a carriage return, both in a row, a next-line character, or a line or paragraph
separator.
-/
namespace LayeredConfig.Yaml

def isBreak (c : Char) : Bool :=
  c == '\n' || c == '\r' || c == '\u0085' || c == '\u2028' || c == '\u2029'

def isBlank (c : Char) : Bool :=
  c == ' ' || c == '\t'

/-- The bytes that characters take in a text. -/
def byteLength : List Char → Nat
  | [] => 0
  | c :: rest => c.utf8Size + byteLength rest

theorem byteLength_append (cs ds : List Char) :
    byteLength (cs ++ ds) = byteLength cs + byteLength ds := by
  induction cs with
  | nil => simp [byteLength]
  | cons c rest ih => simp [byteLength, ih, Nat.add_assoc]

theorem byteLength_reverse (cs : List Char) : byteLength cs.reverse = byteLength cs := by
  induction cs with
  | nil => rfl
  | cons c rest ih =>
    rw [List.reverse_cons, byteLength_append, ih]
    simp [byteLength, Nat.add_comm]

/-- A place in a text: what follows, the bytes before it, and its line and column. -/
structure Cursor where
  rest : List Char
  index : Nat := 0
  line : Nat := 0
  column : Nat := 0

namespace Cursor

def peek (c : Cursor) (ahead : Nat) : Option Char := c.rest[ahead]?

def sees (c : Cursor) (expected : Char) : Bool := c.rest.head? == some expected

def atEnd (c : Cursor) : Bool := c.rest.isEmpty

/-- A blank, the end of a line or the end of the text is that many places ahead. -/
def gapAhead (c : Cursor) (ahead : Nat) : Bool :=
  match c.peek ahead with
  | none => true
  | some x => isBlank x || isBreak x

/-- The line or the text ends here. -/
def atLineEnd (c : Cursor) : Bool :=
  match c.rest with
  | [] => true
  | x :: _ => isBreak x

/-- The place a number of characters further on the same line. -/
def advance (c : Cursor) (n : Nat) : Cursor :=
  ⟨c.rest.drop n, c.index + byteLength (c.rest.take n), c.line, c.column + n⟩

/-- The end of the line here, as a text keeps it, and the place behind it. -/
def lineBreak? (c : Cursor) : Option (List Char × Cursor) :=
  match c.rest with
  | '\r' :: '\n' :: rest => some (['\n'], ⟨rest, c.index + 2, c.line + 1, 0⟩)
  | x :: rest =>
    if isBreak x then
      let kept := if x == '\u2028' || x == '\u2029' then x else '\n'
      some ([kept], ⟨rest, c.index + x.utf8Size, c.line + 1, 0⟩)
    else none
  | [] => none

/-- The characters up to the first that fails the test, and the place behind them; they must not
go beyond the line. -/
def takeWhile (c : Cursor) (test : Char → Bool) : List Char × Cursor :=
  let taken := c.rest.takeWhile test
  (taken, c.advance taken.length)

/-- The rest of the line, and its end. -/
def restOfLine (c : Cursor) : List Char × Cursor :=
  c.takeWhile fun x => !isBreak x

/-- A marker of three equal characters that stands alone at the begin of a line. -/
def atMarker (c : Cursor) (x : Char) : Bool :=
  c.column == 0 && c.rest.take 3 == [x, x, x] && c.gapAhead 3

/-- A marker that begins or ends a document. -/
def atDocumentMarker (c : Cursor) : Bool :=
  c.atMarker '-' || c.atMarker '.'

end Cursor
end LayeredConfig.Yaml
