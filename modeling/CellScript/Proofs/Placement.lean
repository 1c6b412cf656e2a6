import CellScript.Source

namespace CellScript

/-!
# Places of characters

A character stands on the line after all line feeds before it and in the column
after the characters since the last of them.  Reading a script line by line keeps
all characters that are not blank, in order, and gives them these places.
-/

/-- The place of the character right behind a text. -/
def Position.behind (before : List Char) : Position where
  line := before.count '\n' + 1
  column := (before.reverse.takeWhile (· ≠ '\n')).length + 1

namespace Position

/-- Behind a line feed the next line begins. -/
theorem behind_lineFeed
    (before : List Char) :
    behind (before ++ ['\n']) = { line := (behind before).line + 1, column := 1 } := by
  simp [behind]

/-- Behind any other character the same line goes on. -/
theorem behind_other
    {character : Char}
    (before : List Char)
    (other : character ≠ '\n') :
    behind (before ++ [character]) =
      { line := (behind before).line, column := (behind before).column + 1 } := by
  simp [behind, other]

end Position

namespace Placed

/-- The characters of a text that stands right behind another one, with their places. -/
def behind : (before : List Char) → List Char → List Placed
  | _, [] => []
  | before, character :: rest =>
      { character, position := .behind before } :: behind (before ++ [character]) rest

/-- The characters of a text with their places. -/
def ofText (text : List Char) : List Placed :=
  behind [] text

/-- Placing characters does not change them. -/
@[simp]
theorem characters_behind
    (before text : List Char) :
    characters (behind before text) = text := by
  induction text generalizing before with
  | nil => rfl
  | cons character rest inductionHypothesis =>
      exact congrArg (List.cons character) (inductionHypothesis (before ++ [character]))

theorem characters_ofLine
    (line : Nat)
    (text : List Char) :
    characters (ofLine line text) = text := by
  rw [characters, ofLine, List.map_map]
  exact List.zipIdx_map_fst 1 text

/-- Trimming placed characters is trimming the characters. -/
theorem characters_trimBy
    (text : List Placed) :
    characters (Text.trimBy isBlank text) = Text.trim (characters text) := by
  have dropped (text : List Placed) :
      (text.dropWhile isBlank).map character = (text.map character).dropWhile Text.isBlank := by
    rw [List.dropWhile_map]
    rfl
  rw [characters, characters, Text.trimBy, Text.trim, Text.trimBy, List.map_reverse, dropped,
    List.map_reverse, dropped]

/-- Place the characters of a text in a row, beginning in a column. -/
private def inRow (line column : Nat) (text : List Char) : List Placed :=
  (text.zipIdx column).map fun (character, column) =>
    { character, position := { line, column } }

private theorem inRow_cons
    (line column : Nat)
    (character : Char)
    (rest : List Char) :
    inRow line column (character :: rest) =
      { character, position := { line, column } } :: inRow line (column + 1) rest := by
  simp [inRow]

end Placed

namespace Text

/-- Dropping blank items at the front loses no other items. -/
private theorem filter_dropWhile
    {α : Type}
    (blank : α → Bool)
    (items : List α) :
    (items.dropWhile blank).filter (fun item => !blank item) =
      items.filter fun item => !blank item := by
  induction items with
  | nil => rfl
  | cons item rest inductionHypothesis =>
      by_cases isBlank : blank item = true
      · simp [isBlank, inductionHypothesis]
      · simp [isBlank]

/-- Trimming loses blank items only. -/
theorem filter_trimBy
    {α : Type}
    (blank : α → Bool)
    (items : List α) :
    (trimBy blank items).filter (fun item => !blank item) =
      items.filter fun item => !blank item := by
  rw [trimBy, List.filter_reverse, filter_dropWhile, List.filter_reverse,
    List.reverse_reverse, filter_dropWhile]

end Text

namespace Source

/--
Placing the pieces of a text line by line gives the same places as placing the
text as a whole, apart from the line feeds between the pieces.  The first piece
continues the line on which the text before it ends.
-/
private theorem filter_placed_pieces
    (before text : List Char) :
    ∃ first others,
      Text.pieces text = first :: others ∧
      ((Placed.inRow (Position.behind before).line (Position.behind before).column first ::
          (others.zipIdx ((Position.behind before).line + 1)).map fun (text, line) =>
            Placed.ofLine line text).flatten.filter fun placed => !placed.isBlank) =
        (Placed.behind before text).filter fun placed => !placed.isBlank := by
  induction text generalizing before with
  | nil => exact ⟨[], [], rfl, rfl⟩
  | cons character rest inductionHypothesis =>
      obtain ⟨first, others, pieces, placed⟩ := inductionHypothesis (before ++ [character])
      by_cases isLineFeed : character = '\n'
      · subst isLineFeed
        refine ⟨[], first :: others, ?_, ?_⟩
        · rw [← pieces]
          rfl
        · rw [Position.behind_lineFeed] at placed
          have isBlank : (Placed.mk '\n' (.behind before)).isBlank = true :=
            Text.isBlank_lineFeed
          simp only [Placed.behind, List.filter_cons, isBlank, Bool.not_true,
            Bool.false_eq_true, if_false, ← placed]
          rfl
      · refine ⟨character :: first, others, ?_, ?_⟩
        · simp only [Text.pieces, Text.piecesBy] at pieces ⊢
          simp [isLineFeed, pieces]
        · rw [Position.behind_other before isLineFeed] at placed
          rw [Placed.inRow_cons, Placed.behind, List.flatten_cons, List.cons_append,
            List.filter_cons, List.filter_cons, ← placed, List.flatten_cons]

/-- Laying out a script keeps its characters that are not blank, with their places. -/
theorem filter_layout
    (source : String) :
    (layout source).filter (fun placed => !placed.isBlank) =
      (Placed.ofText source.toList).filter fun placed => !placed.isBlank := by
  obtain ⟨first, others, pieces, placed⟩ := filter_placed_pieces [] source.toList
  have lines :
      placedLines source =
        Placed.inRow 1 1 first ::
          (others.zipIdx 2).map fun (text, line) => Placed.ofLine line text := by
    rw [placedLines, pieces]
    rfl
  have trimmed :
      (layout source).filter (fun placed => !placed.isBlank) =
        (placedLines source).flatten.filter fun placed => !placed.isBlank := by
    rw [layout, List.filter_flatten, List.filter_flatten, List.map_map]
    exact congrArg List.flatten
      (List.map_congr_left fun line _ => Text.filter_trimBy Placed.isBlank line)
  rw [trimmed, lines]
  exact placed

/-- The lines of a text, trimmed and joined. -/
def joined (source : String) : List Char :=
  ((Text.pieces source.toList).map Text.trim).flatten

/-- What is read are the characters of the trimmed lines, joined. -/
theorem characters_layout_eq_joined
    (source : String) :
    Placed.characters (layout source) = joined source := by
  have line (text : List Char) (number : Nat) :
      Placed.characters (Text.trimBy Placed.isBlank (Placed.ofLine number text)) =
        Text.trim text := by
    rw [Placed.characters_trimBy, Placed.characters_ofLine]
  have lines :
      Placed.characters (layout source) =
        (((Text.pieces source.toList).zipIdx 1).map (Text.trim ∘ Prod.fst)).flatten := by
    rw [layout, Placed.characters, List.map_flatten, List.map_map, placedLines, List.map_map]
    exact congrArg List.flatten (List.map_congr_left fun numbered _ => line numbered.1 numbered.2)
  rw [lines, joined, ← List.map_map, List.zipIdx_map_fst]

end Source

end CellScript
