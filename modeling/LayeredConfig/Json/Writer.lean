import LayeredConfig.Decimal.Layout
import LayeredConfig.Value.Fields
/-!
# Writing JSON documents

The compact text of a value, with object fields in order, and the indented one.
-/
namespace LayeredConfig.Json

def hexChar (n : Nat) : Char :=
  if n < 10 then Char.ofNat ('0'.toNat + n) else Char.ofNat ('a'.toNat + (n - 10))

/-- One character inside a string: quote, backslash and control characters are escaped, everything
else stands for itself. -/
def writeChar (c : Char) : List Char :=
  if c == '\x22' then ['\\', '\x22']
  else if c == '\\' then ['\\', '\\']
  else if c == '\x08' then ['\\', 'b']
  else if c == '\x0c' then ['\\', 'f']
  else if c == '\n' then ['\\', 'n']
  else if c == '\r' then ['\\', 'r']
  else if c == '\t' then ['\\', 't']
  else if c.toNat < 0x20 then
    ['\\', 'u', '0', '0', hexChar (c.toNat / 16), hexChar (c.toNat % 16)]
  else [c]

def writeString (s : String) : String :=
  "\"" ++ String.ofList (s.toList.flatMap writeChar) ++ "\""

/-- The text of a value that is neither an array nor an object with content. -/
def writeScalar : Value → String
  | .null => "null"
  | .bool b => if b then "true" else "false"
  | .int i => toString i
  | .float x => Decimal.text x
  | .str s => writeString s
  | .arr _ => "[]"
  | .obj _ => "\x7b\x7d"

mutual

/-- The compact text of a value, in pieces. -/
def pieces : Value → List String
  | .arr items => "[" :: itemPieces items ++ ["]"]
  | .obj fields => "\x7b" :: fieldPieces fields ++ ["\x7d"]
  | v => [writeScalar v]
termination_by structural v => v

/-- The items of an array with commas between them. -/
def itemPieces : List Value → List String
  | [] => []
  | v :: rest => pieces v ++ (if rest.isEmpty then [] else [","]) ++ itemPieces rest
termination_by structural items => items

/-- The fields of an object with commas between them. -/
def fieldPieces : Fields → List String
  | [] => []
  | (k, v) :: rest =>
    writeString k :: ":" :: pieces v ++ (if rest.isEmpty then [] else [","]) ++ fieldPieces rest
termination_by structural fields => fields

end

/-- The compact text of a value. -/
def write (v : Value) : String :=
  String.join (pieces v)

/-- A line break followed by two blanks for every level. -/
def newLine (level : Nat) : String :=
  "\n" ++ String.ofList (List.replicate (2 * level) ' ')

mutual

/-- The indented text of a value at a level, in pieces; arrays and objects without content stay on
one line. -/
def indentedPieces (level : Nat) : Value → List String
  | .arr items =>
    if items.isEmpty then ["[]"] else "[" :: indentedItems level items ++ [newLine level, "]"]
  | .obj fields =>
    if fields.isEmpty then ["\x7b\x7d"]
    else "\x7b" :: indentedFields level fields ++ [newLine level, "\x7d"]
  | v => [writeScalar v]
termination_by structural v => v

/-- The items of an array, one a line. -/
def indentedItems (level : Nat) : List Value → List String
  | [] => []
  | v :: rest =>
    newLine (level + 1) :: indentedPieces (level + 1) v ++ (if rest.isEmpty then [] else [","])
      ++ indentedItems level rest
termination_by structural items => items

/-- The fields of an object, one a line. -/
def indentedFields (level : Nat) : Fields → List String
  | [] => []
  | (k, v) :: rest =>
    newLine (level + 1) :: writeString k :: ": " :: indentedPieces (level + 1) v
      ++ (if rest.isEmpty then [] else [","]) ++ indentedFields level rest
termination_by structural fields => fields

end

/-- The indented text of a value. -/
def writeIndented (v : Value) : String :=
  String.join (indentedPieces 0 v)

end LayeredConfig.Json
