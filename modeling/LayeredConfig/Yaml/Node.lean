import LayeredConfig.Yaml.Token
/-!
# Nodes

The structure of a YAML document: scalars, lists and maps. A text holds at most one document.
-/
namespace LayeredConfig.Yaml

/-- A part of a document. -/
inductive Node where
  | scalar (text : String) (plain : Bool)
  | list (items : List Node)
  | map (pairs : List (Node × Node))
  deriving Inhabited

namespace Node

def absent : Node := .scalar "" true

/-- What is wrong with tokens that cannot go on like this. -/
def unexpected : List Token → Failure
  | .broken :: _ => .breakdown
  | _ => .malformed

/-- Reads a node unless one of the tokens follows before which it is left out. -/
def orAbsent (endings : List Token) (read : List Token → Except Failure (Node × List Token))
    (ts : List Token) : Except Failure (Node × List Token) :=
  match ts with
  | t :: _ => if endings.contains t then .ok (absent, ts) else read ts
  | [] => .error .malformed

/-- Reads a value behind its colon, which may be left out like the value itself. -/
def valueOr (endings : List Token) (read : List Token → Except Failure (Node × List Token))
    (ts : List Token) : Except Failure (Node × List Token) :=
  match ts with
  | .value :: ts => orAbsent endings read ts
  | ts => .ok (absent, ts)

/-- The tokens before which a part of a block map is left out. -/
def mapEndings : List Token := [.key, .value, .blockEnd]

mutual

/-- Reads a node. `inBlock` allows lists and maps that are told by their indentation, and `flush`
lists whose items stand in the column of the surrounding map. -/
def node (inBlock flush : Bool) : Nat → List Token → Except Failure (Node × List Token)
  | 0, _ => .error .malformed
  | fuel + 1, ts =>
    match ts with
    | .scalar text plain :: ts => .ok (.scalar text plain, ts)
    | .openList :: ts => (flowItems true fuel ts).map fun (items, ts) => (.list items, ts)
    | .openMap :: ts => (flowPairs true fuel ts).map fun (pairs, ts) => (.map pairs, ts)
    | .item :: rest =>
      if flush then (flushItems fuel (.item :: rest)).map fun (items, ts) => (.list items, ts)
      else .error .malformed
    | .blockList :: ts =>
      if inBlock then (blockItems fuel ts).map fun (items, ts) => (.list items, ts)
      else .error .malformed
    | .blockMap :: ts =>
      if inBlock then (blockPairs fuel ts).map fun (pairs, ts) => (.map pairs, ts)
      else .error .malformed
    | ts => .error (unexpected ts)

/-- The items of a list that has an indentation of its own. -/
def blockItems : Nat → List Token → Except Failure (List Node × List Token)
  | 0, _ => .error .malformed
  | fuel + 1, ts =>
    match ts with
    | .item :: ts => do
      let (item, ts) ← orAbsent [.item, .blockEnd] (node true false fuel) ts
      let (items, ts) ← blockItems fuel ts
      pure (item :: items, ts)
    | .blockEnd :: ts => .ok ([], ts)
    | ts => .error (unexpected ts)

/-- The items of a list in the column of the surrounding map; whatever follows ends it. -/
def flushItems : Nat → List Token → Except Failure (List Node × List Token)
  | 0, _ => .error .malformed
  | fuel + 1, ts =>
    match ts with
    | .item :: ts => do
      let (item, ts) ← orAbsent (.item :: mapEndings) (node true false fuel) ts
      let (items, ts) ← flushItems fuel ts
      pure (item :: items, ts)
    | ts => .ok ([], ts)

/-- The pairs of a map that is told by its indentation. -/
def blockPairs : Nat → List Token → Except Failure (List (Node × Node) × List Token)
  | 0, _ => .error .malformed
  | fuel + 1, ts =>
    match ts with
    | .key :: ts => do
      let (key, ts) ← orAbsent mapEndings (node true true fuel) ts
      let (value, ts) ← valueOr mapEndings (node true true fuel) ts
      let (pairs, ts) ← blockPairs fuel ts
      pure ((key, value) :: pairs, ts)
    | .blockEnd :: ts => .ok ([], ts)
    | ts => .error (unexpected ts)

/-- The items of a list in brackets; an item may be a single pair, which is a map. -/
def flowItems (isFirst : Bool) : Nat → List Token → Except Failure (List Node × List Token)
  | 0, _ => .error .malformed
  | fuel + 1, ts =>
    match ts with
    | .closeList :: ts => .ok ([], ts)
    | ts => do
      let ts ← if isFirst then pure ts else match ts with
        | .comma :: ts => pure ts
        | ts => throw (unexpected ts)
      match ts with
      | .closeList :: ts => pure ([], ts)
      | .key :: ts =>
        let endings := [.comma, .closeList]
        let (key, ts) ← match ts with
          | .value :: ts | .comma :: ts | .closeList :: ts => pure (absent, ts)
          | ts => node false false fuel ts
        let (value, ts) ← valueOr endings (node false false fuel) ts
        let (items, ts) ← flowItems false fuel ts
        pure (.map [(key, value)] :: items, ts)
      | ts =>
        let (item, ts) ← node false false fuel ts
        let (items, ts) ← flowItems false fuel ts
        pure (item :: items, ts)

/-- The pairs of a map in braces; a node alone is a key without a value. -/
def flowPairs (isFirst : Bool) :
    Nat → List Token → Except Failure (List (Node × Node) × List Token)
  | 0, _ => .error .malformed
  | fuel + 1, ts =>
    match ts with
    | .closeMap :: ts => .ok ([], ts)
    | ts => do
      let ts ← if isFirst then pure ts else match ts with
        | .comma :: ts => pure ts
        | ts => throw (unexpected ts)
      match ts with
      | .closeMap :: ts => pure ([], ts)
      | .key :: ts =>
        let endings := [.comma, .closeMap]
        let (key, ts) ← orAbsent (.value :: endings) (node false false fuel) ts
        let (value, ts) ← valueOr endings (node false false fuel) ts
        let (pairs, ts) ← flowPairs false fuel ts
        pure ((key, value) :: pairs, ts)
      | ts =>
        let (key, ts) ← node false false fuel ts
        let (pairs, ts) ← flowPairs false fuel ts
        pure ((key, absent) :: pairs, ts)

end

def complete (ts : List Token) : Except Failure (Node × List Token) :=
  node true false (4 * ts.length + 4) ts

/-- The content of a document behind the marker that begins it; it may be left out. -/
def content (ts : List Token) : Except Failure (Node × List Token) :=
  match ts with
  | [] | .documentStart :: _ | .documentEnd :: _ => .ok (absent, ts)
  | ts => complete ts

/-- A document is only known to be over when the token behind it was read. -/
def closed (found : Node × List Token) : Except Failure (Node × List Token) :=
  match found.2 with
  | .broken :: _ => .error .breakdown
  | _ => .ok found

/-- The first document of a text; one without any stands for a document that is left empty. -/
def first (ts : List Token) : Except Failure (Node × List Token) :=
  match ts with
  | [] => .ok (absent, [])
  | .documentStart :: ts => content ts >>= closed
  | ts => complete ts >>= closed

/-- Nothing but the marks of its end may follow a document. Another document is read before it is
refused. -/
def nothingElse (ts : List Token) : Except Failure Unit :=
  match ts.dropWhile (· == .documentEnd) with
  | [] => .ok ()
  | .documentStart :: ts => do
    let _ ← content ts >>= closed
    throw .malformed
  | ts => .error (unexpected ts)

end Node
end LayeredConfig.Yaml
