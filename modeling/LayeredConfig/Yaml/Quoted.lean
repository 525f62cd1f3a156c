import LayeredConfig.Json.Reader
import LayeredConfig.Yaml.Folding
/-!
# Quoted scalars

Scalars in single quotes, in which a quote is written twice, and in double quotes, in which a
backslash begins an escape.
-/
namespace LayeredConfig.Yaml.Quoted

/-- The character that a letter behind a backslash stands for. -/
def simpleEscape? (c : Char) : Option Char :=
  match c with
  | '0' => some '\x00'
  | 'a' => some '\x07'
  | 'b' => some '\x08'
  | 't' => some '\t'
  | '\t' => some '\t'
  | 'n' => some '\n'
  | 'v' => some '\x0b'
  | 'f' => some '\x0c'
  | 'r' => some '\r'
  | 'e' => some '\x1b'
  | ' ' => some ' '
  | '\x22' => some '\x22'
  | '/' => some '/'
  | '\\' => some '\\'
  | 'N' => some '\u0085'
  | '_' => some '\u00a0'
  | 'L' => some '\u2028'
  | 'P' => some '\u2029'
  | _ => none

/-- How many hexadecimal digits follow a letter behind a backslash. -/
def codeLength? (c : Char) : Option Nat :=
  match c with
  | 'x' => some 2
  | 'u' => some 4
  | 'U' => some 8
  | _ => none

def hexValue? (cs : List Char) : Option Nat :=
  cs.foldl (fun n c => do pure ((← n) * 16 + (← Json.hexDigit? c))) (some 0)

/-- The character that an escape stands for, and the place behind it. -/
def escape? (c : Cursor) : Option (Char × Cursor) := do
  let letter ← c.peek 1
  match simpleEscape? letter with
  | some x => pure (x, c.advance 2)
  | none =>
    let length ← codeLength? letter
    let digits := (c.rest.drop 2).take length
    if digits.length < length then none
    let code ← hexValue? digits
    if code.isValidChar then pure (Char.ofNat code, c.advance (2 + length)) else none

/-- What ended a run of characters in a quoted scalar. -/
inductive Stop where
  | gap
  | escapedBreak (next : Cursor)

/-- Adds the characters up to the next blank, line end, closing quote or escaped line end. -/
def word (quote : Char) : Nat → Buffer → Cursor → Except Failure (Buffer × Stop × Cursor)
  | 0, _, _ => .error .malformed
  | fuel + 1, b, c =>
    if c.gapAhead 0 then .ok (b, .gap, c)
    else match c.rest with
      | '\'' :: '\'' :: _ =>
        if quote == '\'' then word quote fuel (b.push '\'') (c.advance 2)
        else word quote fuel (b.push '\'') (c.advance 1)
      | x :: _ =>
        if x == quote then .ok (b, .gap, c)
        else if quote == '\x22' && x == '\\' then
          match (c.advance 1).lineBreak? with
          | some (_, next) => .ok (b, .escapedBreak next, c)
          | none =>
            match escape? c with
            | some (e, next) => word quote fuel (b.push e) next
            | none => .error .malformed
        else word quote fuel (b.push x) (c.advance 1)
      | [] => .error .malformed

/-- The text of a scalar up to its closing quote, and the place behind it. -/
def read (quote : Char) : Nat → Buffer → Cursor → Except Failure (String × Cursor)
  | 0, _, _ => .error .malformed
  | fuel + 1, b, c =>
    if c.atDocumentMarker || c.atEnd then .error .malformed
    else do
      let (b, stop, c) ← word quote (c.rest.length + 1) b c
      let (gap, c) : Gap × Cursor := match stop with
        | .gap => ({}, c)
        | .escapedBreak next => ({ first := some [] }, next)
      if c.sees quote then return (String.ofList b.text, c.advance 1)
      let (gap, c) ← Gap.read none (c.rest.length + 1) gap c
      let b ← gap.addTo b
      read quote fuel b c

end LayeredConfig.Yaml.Quoted
