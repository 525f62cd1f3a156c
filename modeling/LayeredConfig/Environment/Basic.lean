import LayeredConfig.Text.Pieces
import LayeredConfig.Value.Fields
/-!
# Environments

An environment holds variables: texts under names, each name once, in the order of the names.
-/
namespace LayeredConfig

/-- The variables of an environment, sorted by name. -/
structure Environment where
  vars : List (String × String)
  sorted : Fields.Sorted vars

namespace Environment

def empty : Environment := ⟨[], Fields.sorted_nil⟩

/-- An environment from pairs in any order; of two with one name the later counts. -/
def ofList (pairs : List (String × String)) : Environment :=
  ⟨Fields.ofList pairs, Fields.sorted_ofList pairs⟩

def var? (env : Environment) (name : String) : Option String :=
  Fields.get? env.vars name

/-- The variable that a text such as NAME=value defines. An equals sign at the very start belongs
to the name. -/
def entry? (text : String) : Option (String × String) :=
  match text.toList with
  | [] => none
  | first :: rest => (Text.cutAtFirst ['='] rest).map fun (name, value) =>
    (String.ofList (first :: name), String.ofList value)

/-- The environment of a block of definitions, each ended by a zero byte. Definitions that are no
text are left out, and of two with one name the earlier counts. -/
def ofBlock (block : List UInt8) : Environment :=
  let texts := (block.splitOn 0).filterMap fun bytes =>
    String.fromUTF8? (ByteArray.mk bytes.toArray)
  ofList (texts.filterMap entry?).reverse

end Environment
end LayeredConfig
