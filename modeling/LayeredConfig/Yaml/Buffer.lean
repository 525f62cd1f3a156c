import LayeredConfig.Yaml.Cursor
import LayeredConfig.Yaml.Failure
/-!
# Buffers

The text of a scalar is gathered in a buffer, whose room is counted in bytes. The room doubles when
a single character comes near its end. A run of blanks or line ends is added as a whole, which makes
no room: reading breaks down at a run that is longer than the room that is left.
-/
namespace LayeredConfig.Yaml

/-- The room of a buffer to begin with, in bytes. -/
def initialRoom : Nat := 16

/-- A character is near the end of the room if no more bytes than these are left. -/
def margin : Nat := 5

/-- The text of a scalar as far as it was read, the last character first, with the bytes that it
takes and the room for them. -/
structure Buffer where
  reversed : List Char
  size : Nat
  room : Nat
  size_eq : size = byteLength reversed

namespace Buffer

def empty : Buffer := ⟨[], 0, initialRoom, rfl⟩

def text (b : Buffer) : List Char := b.reversed.reverse

def push (b : Buffer) (c : Char) : Buffer where
  reversed := c :: b.reversed
  size := b.size + c.utf8Size
  room := if b.room ≤ b.size + margin then 2 * b.room else b.room
  size_eq := by rw [byteLength, ← b.size_eq, Nat.add_comm]

/-- The buffer with characters added one by one. -/
def pushAll (b : Buffer) (cs : List Char) : Buffer :=
  cs.foldl push b

/-- The buffer with a run added as a whole. -/
def join (b : Buffer) (run : List Char) : Except Failure Buffer :=
  if b.room < b.size + byteLength run then .error .breakdown
  else .ok {
    reversed := run.reverse ++ b.reversed
    size := b.size + byteLength run
    room := b.room
    size_eq := by rw [byteLength_append, byteLength_reverse, b.size_eq, Nat.add_comm] }

@[simp] theorem text_push (b : Buffer) (c : Char) : (b.push c).text = b.text ++ [c] := by
  simp [push, text]

@[simp] theorem text_pushAll (b : Buffer) (cs : List Char) :
    (b.pushAll cs).text = b.text ++ cs := by
  induction cs generalizing b with
  | nil => simp [pushAll]
  | cons c rest ih =>
    have step : b.pushAll (c :: rest) = (b.push c).pushAll rest := rfl
    rw [step, ih, text_push, List.append_assoc, List.singleton_append]

/-- The bytes of the text are those that were counted. -/
theorem byteLength_text (b : Buffer) : byteLength b.text = b.size := by
  rw [text, byteLength_reverse, b.size_eq]

/-- A run either is added as it is, or it does not fit. -/
theorem join_eq (b : Buffer) (run : List Char) :
    (b.join run).map text =
      if b.room < byteLength (b.text ++ run) then .error .breakdown else .ok (b.text ++ run) := by
  rw [byteLength_append, byteLength_text]
  by_cases long : b.room < b.size + byteLength run <;> simp [join, long, Except.map, text]

end Buffer
end LayeredConfig.Yaml
