import LayeredConfig.Shape
import LayeredConfig.Tree.Basic
/-!
# Mappers

A mapper prepares a value before it is read as a record. The relaxed mapper turns the keys of all
objects in it to snake case, so that other spellings of a field name are accepted too; the strict
mapper changes nothing.
-/
namespace LayeredConfig

/-- How keys are prepared. -/
inductive Mapper where
  | relaxed
  | strict
  deriving DecidableEq, Repr

/-- Snake case of the characters of a key: hyphens and blanks become underscores, and an ASCII
capital becomes small, behind an underscore if `afterSmall` says that a small ASCII letter or a
digit stands before it. -/
def snakeChars (afterSmall : Bool) : List Char → List Char
  | [] => []
  | c :: cs =>
    if c == '-' || c == ' ' then '_' :: snakeChars false cs
    else if c.isUpper then
      if afterSmall then '_' :: c.toLower :: snakeChars false cs
      else c.toLower :: snakeChars false cs
    else c :: snakeChars (c.isLower || c.isDigit) cs

def snakeCase (key : String) : String :=
  String.ofList (snakeChars false key.toList)

/-- The value with the keys of all objects in it in snake case. Of two keys that become one the
greater counts. -/
def Value.normalizeKeys (v : Value) : Value := v.mapKeys snakeCase

namespace Mapper

def name : Mapper → String
  | .relaxed => "relaxed"
  | .strict => "strict"

/-- The value as the mapper hands it on. -/
def prepare : Mapper → Value → Value
  | .relaxed, v => v.normalizeKeys
  | .strict, v => v

/-- Prepares a value and reads it as a shape; `path` says in messages where the value stands. -/
def mapBean (mapper : Mapper) (shape : Shape) (v : Value) (path : String) :
    Except ConfigError Value :=
  match shape.read (mapper.prepare v) with
  | .ok read => .ok read
  | .error mismatch =>
    .error (.extract (if path.isEmpty then Tree.rootName else path)
      (mapper.name ++ " mapper: " ++ mismatch.message))

end Mapper
end LayeredConfig
