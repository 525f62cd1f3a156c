import LayeredConfig.Decimal.Layout
import LayeredConfig.Text.Quoted
import LayeredConfig.Value.Fields
import LayeredConfig.Width
/-!
# Shapes

What kind of value a reader wants, and reading a value as that kind. Reading gives the value back in
the form of the shape: numbers become floating-point numbers where those are wanted, records hold
all of their fields.
-/
namespace LayeredConfig

/-- Whether a field of a record may be left out, and what it then is. -/
inductive Absence where
  -- The field must be there.
  | refused
  -- The field may be left out of an object, but not of an array.
  | inObjects (value : Value)
  -- The field may be left out of an object and at the end of an array.
  | anywhere (value : Value)

/-- What a field that is left out of an object is. -/
def Absence.value? : Absence → Option Value
  | .refused => none
  | .inObjects v | .anywhere v => some v

/-- A field of a record, with a shape from `σ`. -/
structure Field (σ : Type) where
  name : String
  shape : σ
  absence : Absence

/-- The kind of value that is wanted. -/
inductive Shape where
  | bool
  | integer (name : String) (low high : Int)
  | number
  | string
  | any
  | optional (shape : Shape)
  | list (items : Shape)
  | stringMap
  | record (name : String) (fields : List (Field Shape))

namespace Shape

/-! ### Whole numbers of a fixed width -/

def u8 : Shape := .integer "u8" 0 (Width.unsignedMax 8)
def u16 : Shape := .integer "u16" 0 (Width.unsignedMax 16)
def u32 : Shape := .integer "u32" 0 (Width.unsignedMax 32)
def u64 : Shape := .integer "u64" 0 (Width.unsignedMax 64)
def i8 : Shape := .integer "i8" (Width.signedMin 8) (Width.signedMax 8)
def i16 : Shape := .integer "i16" (Width.signedMin 16) (Width.signedMax 16)
def i32 : Shape := .integer "i32" (Width.signedMin 32) (Width.signedMax 32)
def i64 : Shape := .integer "i64" (Width.signedMin 64) (Width.signedMax 64)

/-- Why a value does not have a shape. -/
inductive Mismatch where
  | wrongType (found : Value) (wanted : String)
  | outOfRange (found : Int) (wanted : String)
  | missingField (name : String)
  | wrongLength (length : Nat) (wanted : String)

def foundText : Value → String
  | .null => "null"
  | .bool b => "boolean `" ++ (if b then "true" else "false") ++ "`"
  | .int i => "integer `" ++ toString i ++ "`"
  | .float x => "floating point `" ++ Decimal.text x ++ "`"
  | .str s => "string " ++ Text.quoted s
  | .arr _ => "sequence"
  | .obj _ => "map"

def Mismatch.message : Mismatch → String
  | .wrongType found wanted => "invalid type: " ++ foundText found ++ ", expected " ++ wanted
  | .outOfRange found wanted =>
    "invalid value: " ++ foundText (.int found) ++ ", expected " ++ wanted
  | .missingField name => "missing field `" ++ name ++ "`"
  | .wrongLength length wanted => "invalid length " ++ toString length ++ ", expected " ++ wanted

/-- Reads every field with the reader of its name, in the order of the names; fields without a
reader are left out. -/
def readFields (reader : String → Option (Value → Except Mismatch Value)) :
    Fields → Except Mismatch Fields
  | [] => .ok []
  | (k, v) :: rest =>
    match reader k with
    | none => readFields reader rest
    | some read => do
      let v ← read v
      pure ((k, v) :: (← readFields reader rest))

def readString : Value → Except Mismatch Value
  | .str s => .ok (.str s)
  | v => .error (.wrongType v "a string")

def recordName (name : String) : String := "struct " ++ name

mutual

/-- Reads a value as a shape. -/
def read : Shape → Value → Except Mismatch Value
  | .bool, .bool b => .ok (.bool b)
  | .bool, v => .error (.wrongType v "a boolean")
  | .integer name low high, .int i =>
    if low ≤ i ∧ i ≤ high then .ok (.int i) else .error (.outOfRange i name)
  | .integer name _ _, v => .error (.wrongType v name)
  | .number, .int i => .ok (.float (Float.ofInt i))
  | .number, .float x => .ok (.float x)
  | .number, v => .error (.wrongType v "f64")
  | .string, v => readString v
  | .any, v => .ok v
  | .optional _, .null => .ok .null
  | .optional shape, v => read shape v
  | .list shape, .arr items => (items.mapM (read shape)).map .arr
  | .list _, v => .error (.wrongType v "a sequence")
  | .stringMap, .obj fields => (readFields (fun _ => some readString) fields).map .obj
  | .stringMap, v => .error (.wrongType v "a map")
  | .record _ shapes, .obj fields => do
    let found ← readFields (readerOf shapes) fields
    pure (.obj (← complete found shapes))
  | .record name shapes, .arr items => do
    let (fields, rest) ← readInOrder (recordName name) shapes.length 0 shapes items
    if rest.isEmpty then pure (.obj (Fields.ofList fields))
    else .error (.wrongLength items.length "fewer elements in array")
  | .record name _, v => .error (.wrongType v (recordName name))
termination_by structural shape => shape

/-- The reader of a field of a record. -/
def readerOf (shapes : List (Field Shape)) (key : String) :
    Option (Value → Except Mismatch Value) :=
  match shapes with
  | [] => none
  | ⟨name, shape, _⟩ :: rest =>
    if name == key then some (read shape) else readerOf rest key
termination_by structural shapes

/-- Reads the fields of a record from an array, by position. Only a field that may be left out of
an array too can be missing at its end. -/
def readInOrder (wanted : String) (count position : Nat) :
    List (Field Shape) → List Value →
      Except Mismatch (List (String × Value) × List Value)
  | [], items => .ok ([], items)
  | ⟨name, shape, _⟩ :: rest, v :: items => do
    let v ← read shape v
    let (fields, items) ← readInOrder wanted count (position + 1) rest items
    pure ((name, v) :: fields, items)
  | ⟨name, _, .anywhere value⟩ :: rest, [] => do
    let (fields, items) ← readInOrder wanted count (position + 1) rest []
    pure ((name, value) :: fields, items)
  | _, [] =>
    .error (.wrongLength position (wanted ++ " with " ++ toString count ++
      (if count == 1 then " element" else " elements")))
termination_by structural shapes => shapes

/-- Adds the fields that were left out, in the order of the record. -/
def complete (found : Fields) :
    List (Field Shape) → Except Mismatch Fields
  | [] => .ok found
  | ⟨name, _, absence⟩ :: rest =>
    match Fields.get? found name, absence.value? with
    | some _, _ => complete found rest
    | none, some v => complete (Fields.insert name v found) rest
    | none, none => .error (.missingField name)
termination_by structural shapes => shapes

end

end Shape
end LayeredConfig
