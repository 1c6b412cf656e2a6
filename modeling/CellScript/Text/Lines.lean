namespace CellScript.Text

/-!
# Lines

Two ways to cut a text at its line feeds.  Source text is cut into pieces, one
more than it has line feeds.  Printed text is cut into finished lines: a line
feed ends a line, a carriage return right before it belongs to the line ending,
and no empty line follows a final line feed.
-/

/-- Cut a list at every member satisfying `separates`, dropping that member. -/
def piecesBy {α : Type} (separates : α → Bool) : List α → List (List α)
  | [] => [[]]
  | item :: rest =>
      if separates item then
        [] :: piecesBy separates rest
      else
        match piecesBy separates rest with
        | [] => [[item]]
        | piece :: pieces => (item :: piece) :: pieces

/-- Cut a text at every line feed. -/
def pieces (text : List Char) : List (List Char) :=
  piecesBy (· == '\n') text

/-- Drop one carriage return at the end of a line. -/
def dropReturn (line : List Char) : List Char :=
  if line.getLast? = some '\r' then line.dropLast else line

/-- The finished lines among pieces: all but the last were ended by a line feed. -/
def finishPieces : List (List Char) → List (List Char)
  | [] => []
  | [last] => if last.isEmpty then [] else [last]
  | line :: rest => dropReturn line :: finishPieces rest

/-- The lines of a printed text. -/
def lines (text : List Char) : List (List Char) :=
  finishPieces (pieces text)

/-- Cutting always yields at least one piece. -/
theorem piecesBy_ne_nil
    {α : Type}
    (separates : α → Bool)
    (items : List α) :
    piecesBy separates items ≠ [] := by
  cases items with
  | nil => simp [piecesBy]
  | cons item rest =>
      simp only [piecesBy]
      split
      · simp
      · split <;> simp

/-- A list without separators is a piece by itself. -/
theorem piecesBy_of_bare
    {α : Type}
    {separates : α → Bool}
    {items : List α}
    (bare : ∀ item ∈ items, separates item = false) :
    piecesBy separates items = [items] := by
  induction items with
  | nil => rfl
  | cons item rest inductionHypothesis =>
      rw [piecesBy, bare item List.mem_cons_self,
        inductionHypothesis fun other isOther => bare other (.tail _ isOther)]
      rfl

/-- A text without line feeds is a piece by itself. -/
theorem pieces_of_line
    {line : List Char}
    (noLineFeed : '\n' ∉ line) :
    pieces line = [line] := by
  refine piecesBy_of_bare fun character isMember => ?_
  rw [beq_eq_false_iff_ne]
  rintro rfl
  exact noLineFeed isMember

/-- At a separator, a list is cut into the pieces before it and those after it. -/
theorem piecesBy_append_separator
    {α : Type}
    {separates : α → Bool}
    {separator : α}
    (before after : List α)
    (isSeparator : separates separator = true) :
    piecesBy separates (before ++ separator :: after) =
      piecesBy separates before ++ piecesBy separates after := by
  induction before with
  | nil => simp [piecesBy, isSeparator]
  | cons item rest inductionHypothesis =>
      by_cases separated : separates item = true
      · simp [piecesBy, separated, inductionHypothesis]
      · cases cut : piecesBy separates rest with
        | nil => exact absurd cut (piecesBy_ne_nil separates rest)
        | cons piece pieces =>
            rw [cut] at inductionHypothesis
            simp [piecesBy, separated, inductionHypothesis, cut]

/-- What stands before the first separator is the first piece. -/
theorem piecesBy_append_cons
    {α : Type}
    {separates : α → Bool}
    {before : List α}
    {separator : α}
    (after : List α)
    (bare : ∀ item ∈ before, separates item = false)
    (isSeparator : separates separator = true) :
    piecesBy separates (before ++ separator :: after) =
      before :: piecesBy separates after := by
  rw [piecesBy_append_separator before after isSeparator, piecesBy_of_bare bare,
    List.singleton_append]

/-- There is one piece more than there are separators. -/
theorem length_piecesBy
    {α : Type}
    (separates : α → Bool)
    (items : List α) :
    (piecesBy separates items).length = items.countP separates + 1 := by
  induction items with
  | nil => rfl
  | cons item rest inductionHypothesis =>
      by_cases isSeparator : separates item = true
      · simp [piecesBy, isSeparator, inductionHypothesis]
      · cases split : piecesBy separates rest with
        | nil => exact absurd split (piecesBy_ne_nil separates rest)
        | cons piece pieces =>
            rw [split, List.length_cons] at inductionHypothesis
            simp [piecesBy, isSeparator, split, inductionHypothesis]

end CellScript.Text
