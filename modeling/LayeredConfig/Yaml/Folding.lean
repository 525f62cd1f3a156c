import LayeredConfig.Yaml.Buffer
/-!
# Folding lines

Blanks and line ends between the words of a scalar: blanks within a line are kept, a single line end
becomes a space, and of several the first is left out.
-/
namespace LayeredConfig.Yaml

/-- What stands between two words: the blanks before the first line end, the first line end, which
may be one that counts for nothing, and the further ones. -/
structure Gap where
  blanks : List Char := []
  first : Option (List Char) := none
  more : List Char := []

namespace Gap

/-- Adds the text that stands for a gap. -/
def addTo (g : Gap) (b : Buffer) : Except Failure Buffer :=
  match g.first with
  | none => b.join g.blanks
  | some ['\n'] => if g.more.isEmpty then .ok (b.push ' ') else b.join g.more
  | some first => do (← b.join first).join g.more

def hasBreak (g : Gap) : Bool := g.first.isSome

/-- Reads the blanks and line ends here. A tab to the left of the column `indent` is refused at the
begin of a line, if there is such a column. -/
def read (indent : Option Nat) : Nat → Gap → Cursor → Except Failure (Gap × Cursor)
  | 0, _, _ => .error .malformed
  | fuel + 1, g, c =>
    match c.rest with
    | x :: _ =>
      if isBlank x then
        if g.hasBreak then
          if x == '\t' && indent.any (c.column < ·) then .error .malformed
          else read indent fuel g (c.advance 1)
        else read indent fuel { g with blanks := g.blanks ++ [x] } (c.advance 1)
      else match c.lineBreak? with
        | some (kept, next) =>
          if g.hasBreak then read indent fuel { g with more := g.more ++ kept } next
          else read indent fuel { g with first := some kept } next
        | none => .ok (g, c)
    | [] => .ok (g, c)

end Gap
end LayeredConfig.Yaml
