import CellScript.Fault
import CellScript.Text.Blank
import CellScript.Text.Lines

namespace CellScript

/-!
# Source text

A script is read line by line: each line loses the blank characters at both its
ends, and what is left of the lines is joined without anything in between.  So a
line break never separates anything, and every character that is kept knows its
place in the text as it was written.
-/

/-- A character with its place in source text. -/
structure Placed where
  character : Char
  position : Position
  deriving Repr, DecidableEq

namespace Placed

/-- A placed character is blank when its character is. -/
def isBlank (placed : Placed) : Bool :=
  Text.isBlank placed.character

/-- The characters of a placed text. -/
def characters (text : List Placed) : List Char :=
  text.map Placed.character

/-- Place the characters of a line, the first of them in column one. -/
def ofLine (line : Nat) (text : List Char) : List Placed :=
  (text.zipIdx 1).map fun (character, column) =>
    { character, position := { line, column } }

end Placed

namespace Source

/-- The lines of a text, with every character placed. -/
def placedLines (source : String) : List (List Placed) :=
  ((Text.pieces source.toList).zipIdx 1).map fun (text, line) =>
    Placed.ofLine line text

/-- The characters that are read: the trimmed lines, joined. -/
def layout (source : String) : List Placed :=
  ((placedLines source).map (Text.trimBy Placed.isBlank)).flatten

end Source

end CellScript
