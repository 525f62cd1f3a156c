/-!
# Values

The values that configuration documents hold, and their equality. The fields of an object stand in
the order of their names.
-/
namespace LayeredConfig

/-- A configuration value. Whole numbers and floating-point numbers are kept apart. -/
inductive Value where
  | null
  | bool (b : Bool)
  | int (i : Int)
  | float (x : Float)
  | str (s : String)
  | arr (items : List Value)
  | obj (fields : List (String × Value))
  deriving Inhabited

/-- The fields of an object. -/
abbrev Fields := List (String × Value)

namespace Value

mutual

/-- Structural equality. Floating-point numbers are compared as numbers, so the two zeros are equal;
a whole number never equals a floating-point number. -/
def same : Value → Value → Bool
  | .null, .null => true
  | .bool a, .bool b => a == b
  | .int a, .int b => a == b
  | .float a, .float b => a == b
  | .str a, .str b => a == b
  | .arr a, .arr b => sameItems a b
  | .obj a, .obj b => sameFields a b
  | _, _ => false
termination_by structural v => v

def sameItems : List Value → List Value → Bool
  | [], [] => true
  | a :: as, b :: bs => same a b && sameItems as bs
  | _, _ => false
termination_by structural items => items

def sameFields : Fields → Fields → Bool
  | [], [] => true
  | (k, a) :: as, (l, b) :: bs => k == l && same a b && sameFields as bs
  | _, _ => false
termination_by structural fields => fields

end

instance : BEq Value := ⟨same⟩

/-- The fields of an object; other values have none. -/
def fields : Value → Fields
  | .obj fields => fields
  | _ => []

def text? : Value → Option String
  | .str s => some s
  | _ => none

/-- What kind of value it is, with an article. -/
def kind : Value → String
  | .null => "null"
  | .bool _ => "a boolean"
  | .int _ | .float _ => "a number"
  | .str _ => "a string"
  | .arr _ => "an array"
  | .obj _ => "an object"

end Value

end LayeredConfig
