import LayeredConfig.Json.Numeral
/-!
# Reading JSON documents

Reading a whole text as one JSON value. Reading a part of the text gives what follows it; every
part that is read is shorter than the text it stands in, so the length of the text bounds all loops.
The nesting of arrays and objects is limited.
-/
namespace LayeredConfig.Json

/-- The four blanks of JSON. -/
def isSpace (c : Char) : Bool :=
  c == ' ' || c == '\n' || c == '\t' || c == '\r'

def skipSpace (cs : List Char) : List Char :=
  cs.dropWhile isSpace

/-- The number that a hexadecimal digit stands for. -/
def hexDigit? (c : Char) : Option Nat :=
  if '0' ≤ c ∧ c ≤ '9' then some (c.toNat - '0'.toNat)
  else if 'a' ≤ c ∧ c ≤ 'f' then some (c.toNat - 'a'.toNat + 10)
  else if 'A' ≤ c ∧ c ≤ 'F' then some (c.toNat - 'A'.toNat + 10)
  else none

def fourHex : List Char → Option (Nat × List Char)
  | a :: b :: c :: d :: rest => do
    let n := ((← hexDigit? a) * 16 + (← hexDigit? b)) * 16 + (← hexDigit? c)
    pure (n * 16 + (← hexDigit? d), rest)
  | _ => none

/-- The character behind `\u`: one unit of sixteen bits, or two that form a pair. -/
def unicodeEscape (cs : List Char) : Option (Char × List Char) := do
  let (high, cs) ← fourHex cs
  if high < 0xD800 ∨ 0xE000 ≤ high then pure (Char.ofNat high, cs)
  else if 0xDC00 ≤ high then none
  else match cs with
    | '\\' :: 'u' :: cs => do
      let (low, cs) ← fourHex cs
      if 0xDC00 ≤ low ∧ low < 0xE000 then
        pure (Char.ofNat (0x10000 + (high - 0xD800) * 0x400 + (low - 0xDC00)), cs)
      else none
    | _ => none

/-- The character that an escape behind its backslash stands for. -/
def escape : List Char → Option (Char × List Char)
  | '\x22' :: cs => some ('\x22', cs)
  | '\\' :: cs => some ('\\', cs)
  | '/' :: cs => some ('/', cs)
  | 'b' :: cs => some ('\x08', cs)
  | 'f' :: cs => some ('\x0c', cs)
  | 'n' :: cs => some ('\n', cs)
  | 'r' :: cs => some ('\r', cs)
  | 't' :: cs => some ('\t', cs)
  | 'u' :: cs => unicodeEscape cs
  | _ => none

/-- The rest of a string behind its opening quote; `done` holds what was read, last first. -/
def stringRest : Nat → List Char → List Char → Option (String × List Char)
  | 0, _, _ => none
  | _ + 1, _, [] => none
  | fuel + 1, done, c :: cs =>
    if c == '\x22' then some (String.ofList done.reverse, cs)
    else if c == '\\' then
      match escape cs with
      | some (e, cs) => stringRest fuel (e :: done) cs
      | none => none
    else if c.toNat < 0x20 then none
    else stringRest fuel (c :: done) cs

def literal (text : String) (value : Value) (cs : List Char) : Option (Value × List Char) :=
  if text.toList.isPrefixOf cs then some (value, cs.drop text.length) else none

/-- The items of an array behind its opening bracket or a comma, read by `item`. -/
def itemsRest (item : List Char → Option (Value × List Char)) :
    Nat → List Value → List Char → Option (List Value × List Char)
  | 0, _, _ => none
  | fuel + 1, done, cs =>
    match item (skipSpace cs) with
    | none => none
    | some (v, cs) =>
      match skipSpace cs with
      | ',' :: cs => itemsRest item fuel (v :: done) cs
      | ']' :: cs => some ((v :: done).reverse, cs)
      | _ => none

/-- The fields of an object behind its opening brace or a comma, their values read by `item`; of
two fields with one name the later counts. -/
def fieldsRest (item : List Char → Option (Value × List Char)) :
    Nat → Fields → List Char → Option (Fields × List Char)
  | 0, _, _ => none
  | fuel + 1, done, cs =>
    match skipSpace cs with
    | '\x22' :: cs =>
      match stringRest (cs.length + 1) [] cs with
      | none => none
      | some (key, cs) =>
        match skipSpace cs with
        | ':' :: cs =>
          match item (skipSpace cs) with
          | none => none
          | some (v, cs) =>
            match skipSpace cs with
            | ',' :: cs => fieldsRest item fuel (Fields.insert key v done) cs
            | '\x7d' :: cs => some (Fields.insert key v done, cs)
            | _ => none
        | _ => none
    | _ => none

/-- A value at the front of the text, nested less than `depth` deep, and what follows it. -/
def value : Nat → List Char → Option (Value × List Char)
  | _, [] => none
  | depth, c :: cs =>
    if c == 'n' then literal "null" .null (c :: cs)
    else if c == 't' then literal "true" (.bool true) (c :: cs)
    else if c == 'f' then literal "false" (.bool false) (c :: cs)
    else if c == '\x22' then
      (stringRest (cs.length + 1) [] cs).map fun (s, rest) => (.str s, rest)
    else if c == '[' then
      match depth with
      | 0 | 1 => none
      | depth + 1 =>
        match skipSpace cs with
        | ']' :: rest => some (.arr [], rest)
        | cs =>
          (itemsRest (value depth) (cs.length + 1) [] cs).map fun (vs, rest) => (.arr vs, rest)
    else if c == '\x7b' then
      match depth with
      | 0 | 1 => none
      | depth + 1 =>
        match skipSpace cs with
        | '\x7d' :: rest => some (.obj [], rest)
        | cs =>
          (fieldsRest (value depth) (cs.length + 1) [] cs).map fun (fs, rest) => (.obj fs, rest)
    else do
      let (n, rest) ← numeral (c :: cs)
      pure (← n.value, rest)

/-- Documents nest less than this deep. -/
def depthLimit : Nat := 128

/-- A text that holds one value nested less than `depth` deep, and nothing else. -/
def readNested (depth : Nat) (text : String) : Option Value :=
  match value depth (skipSpace text.toList) with
  | some (v, rest) => if (skipSpace rest).isEmpty then some v else none
  | none => none

/-- A text that holds one value and nothing else. -/
def read (text : String) : Option Value :=
  readNested depthLimit text

end LayeredConfig.Json
