import LayeredConfig.Environment.Basic
import LayeredConfig.Error
import LayeredConfig.Text.Blank
import LayeredConfig.Text.Pieces
import LayeredConfig.Tree.Strings
/-!
# Placeholders

A placeholder in a text, a dollar sign with an expression in braces, stands for a variable of the
environment. The expression is a name, optionally followed by a colon, a hyphen and a default. What
is put in place of a placeholder is not searched for placeholders again.
-/
namespace LayeredConfig.Placeholder

/-- A part of a text with placeholders. -/
inductive Piece where
  | literal (text : List Char)
  | reference (expression : List Char)
  | unterminated
  deriving DecidableEq, Repr

mutual

/-- The pieces of a text, where `done` has been read of a literal, last character first. -/
def piecesOfLiteral (done : List Char) : List Char → List Piece
  | [] => [.literal done.reverse]
  | '$' :: '\x7b' :: rest => .literal done.reverse :: piecesOfReference [] rest
  | c :: rest => piecesOfLiteral (c :: done) rest
termination_by structural cs => cs

/-- The pieces of a text, where `done` has been read of an expression, last character first. -/
def piecesOfReference (done : List Char) : List Char → List Piece
  | [] => [.unterminated]
  | c :: rest =>
    if c == '\x7d' then .reference done.reverse :: piecesOfLiteral [] rest
    else piecesOfReference (c :: done) rest
termination_by structural cs => cs

end

def pieces (text : String) : List Piece :=
  piecesOfLiteral [] text.toList

/-- The name in an expression, and the default if there is one. -/
def nameAndDefault (expression : List Char) : String × Option String :=
  match Text.cutAtFirst [':', '-'] expression with
  | some (name, fallback) =>
    (String.ofList (Text.trimChars name), some (String.ofList fallback))
  | none => (String.ofList (Text.trimChars expression), none)

/-- What an expression stands for: the variable if it is set, where one with a default must also not
be empty, else the default. -/
def resolve? (env : Environment) (expression : List Char) : Option String :=
  let (name, fallback) := nameAndDefault expression
  match env.var? name, fallback with
  | some value, none => some value
  | some value, some text => some (if value.isEmpty then text else value)
  | none, fallback => fallback

/-- How placeholders are treated. -/
structure Substitution where
  env : Environment
  allowMissing : Bool := false

namespace Substitution

/-- The text of one piece of `input`; `path` leads to the text in messages. -/
def replacePiece (s : Substitution) (path input : String) : Piece → Except ConfigError String
  | .literal text => .ok (String.ofList text)
  | .unterminated =>
    .error (.placeholder path ("unterminated placeholder in '" ++ input ++ "'"))
  | .reference expression =>
    match resolve? s.env expression with
    | some value => .ok value
    | none =>
      if s.allowMissing then .ok ("$\x7b" ++ String.ofList expression ++ "\x7d")
      else .error (.placeholder path
        ("placeholder '" ++ (nameAndDefault expression).1 ++ "' is not set"))

/-- The text of pieces one after the other; the first that cannot be replaced ends the work. -/
def replacePieces (s : Substitution) (path input : String) :
    List Piece → Except ConfigError String
  | [] => .ok ""
  | piece :: rest => do
    let text ← s.replacePiece path input piece
    pure (text ++ (← s.replacePieces path input rest))

def replace (s : Substitution) (path input : String) : Except ConfigError String :=
  s.replacePieces path input (pieces input)

/-- A tree with the placeholders in all of its strings replaced. -/
def transform (s : Substitution) (t : Tree) : Except ConfigError Tree :=
  t.mapStrings fun path input => (s.replace path input).map some

end Substitution
end LayeredConfig.Placeholder
