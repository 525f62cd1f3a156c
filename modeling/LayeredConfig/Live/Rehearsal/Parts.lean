import LayeredConfig.Live.Source
import LayeredConfig.Tree.Path
/-!
# Parts for rehearsals

Sources, transformers and rules that a rehearsal puts in the place of those that a client of the
configuration would bring along: a source that answers what it is told to answer, after as long as
it is told to wait, a transformer that is a function, a rule that is not one of the usual ones, and
a rule that can fail. Bootstrap documents cannot name them, and a configuration that is made from
such a document has none of them.
-/
namespace LayeredConfig.Live

/-- A source that is set by hand: the value or the error that it answers with, and how long that
takes. It counts how often it was asked and closed. -/
structure ManualSource where
  name : String := "test"
  value : Value := .null
  error : Option String := none
  delay : Nat := 0
  allowErrors : Bool := false
  closeFails : Bool := false
  calls : Nat := 0
  closes : Nat := 0

/-- What a source that is set by hand answers now. -/
def ManualSource.tree (s : ManualSource) : Except ConfigError Tree :=
  match s.error with
  | some message => .error (.invalidSettings message)
  | none => Tree.ofValue s.value

def Transformer.ofFunction {σ : Type} (name : String) (f : Tree → Except ConfigError Tree) :
    Transformer σ where
  name
  ask _ d := (.atOnce, d)
  answer tree d := (f tree, d)

namespace Extractor

/-- The number of fields of the root. -/
def rootSize : Extractor := fun t => .ok (some (.int t.root.length))

/-- Refuses every tree that holds something at a path. -/
def rejecting (path : String) : Extractor := fun t =>
  if t.hasPath path then .error (.extract path "rejected") else .ok none

end Extractor

end LayeredConfig.Live
