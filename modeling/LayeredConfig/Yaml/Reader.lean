import LayeredConfig.Yaml.Node
/-!
# Reading YAML documents

A YAML document as a value: keys are the texts of scalars, plain scalars are read as what they
spell, and all others are strings.
-/
namespace LayeredConfig.Yaml

/-- Lists and maps nest at most this deep. -/
def depthLimit : Nat := 128

def Node.key? : Node → Option String
  | .scalar text _ => some text
  | _ => none

mutual

/-- The value of a node nested at most `depth` deep. -/
def Node.value? (depth : Nat) : Node → Option Value
  | .scalar text plain => if plain then Plain.value? text else some (.str text)
  | .list items => if depth = 0 then none else (itemValues? (depth - 1) items).map .arr
  | .map pairs => if depth = 0 then none else (pairValues? (depth - 1) pairs).map .ofPairs
termination_by structural node => node

/-- The values of the items of a list. -/
def itemValues? (depth : Nat) : List Node → Option (List Value)
  | [] => some []
  | item :: rest => do
    let v ← item.value? depth
    pure (v :: (← itemValues? depth rest))
termination_by structural items => items

/-- The pairs of a map; of two with one key the later counts. -/
def pairValues? (depth : Nat) : List (Node × Node) → Option (List (String × Value))
  | [] => some []
  | pair :: rest => do
    let found ← pairValue? depth pair
    pure (found :: (← pairValues? depth rest))
termination_by structural pairs => pairs

/-- The key and the value of a pair. -/
def pairValue? (depth : Nat) : Node × Node → Option (String × Value)
  | (key, value) => do
    let name ← key.key?
    pure (name, ← value.value? depth)
termination_by structural pair => pair

end

/-- The value of the only document of a text; a text without one stands for null. -/
def read (text : String) : Except Failure Value := do
  let tokens ← Token.ofText text
  let (found, rest) ← Node.first tokens
  match found.value? depthLimit with
  | none => throw .malformed
  | some v => do
    Node.nothingElse rest
    pure v

end LayeredConfig.Yaml
