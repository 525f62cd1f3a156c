/-!
# Blank characters

The white space property of characters, and removing white space at both ends of a text.
-/
namespace LayeredConfig.Text

/-- A character is blank if it has the white space property: the controls from tab to carriage
return, next line, and the space separators with the line and paragraph separator. -/
def isBlank (c : Char) : Bool :=
  let n := c.toNat
  (9 ≤ n && n ≤ 13) || n == 0x20 || n == 0x85 || n == 0xA0 || n == 0x1680 ||
    (0x2000 ≤ n && n ≤ 0x200A) || n == 0x2028 || n == 0x2029 || n == 0x202F || n == 0x205F ||
    n == 0x3000

/-- The characters with blanks removed from the left end. -/
def trimLeft (cs : List Char) : List Char :=
  cs.dropWhile isBlank

/-- The characters with blanks removed from both ends. -/
def trimChars (cs : List Char) : List Char :=
  (trimLeft (trimLeft cs).reverse).reverse

/-- The text with blanks removed from both ends. -/
def trim (s : String) : String :=
  String.ofList (trimChars s.toList)

/-- A text is blank if nothing is left of it when its ends are trimmed. -/
def isBlankText (s : String) : Bool :=
  s.toList.all isBlank

/-- The trimmed text, unless nothing is left of it. -/
def trimToOption (s : String) : Option String :=
  let t := trim s
  if t.isEmpty then none else some t

end LayeredConfig.Text
