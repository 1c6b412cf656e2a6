import CellScript.Token

namespace CellScript.Token

/-!
# Scanning

Source text is scanned one character after the other.  Characters collect until
something ends them: a bracket or a space outside quotation marks ends a word, a
closing quotation mark ends a quoted text.  An opening quotation mark ends
nothing, so a word right before it belongs to the quoted text.
-/

/-- The state of scanning between two characters. -/
structure Scanner where
  /-- The tokens found, the newest first. -/
  found : List Token
  /-- The characters collected, the newest first. -/
  pending : List Placed
  /-- The place of the quotation mark that is still open. -/
  openQuote : Option Position
  deriving Repr, DecidableEq

namespace Scanner

/-- Nothing found, nothing collected. -/
def start : Scanner :=
  { found := [], pending := [], openQuote := none }

/-- Collect a character. -/
def collect (scanner : Scanner) (placed : Placed) : Scanner :=
  { scanner with pending := placed :: scanner.pending }

/-- The token that collected characters make, unless they are all blank. -/
def token? (kind : Kind) (collected : List Placed) : Option Token :=
  match collected, Text.trim (Placed.characters collected) with
  | [], _ => none
  | _, [] => none
  | first :: _, lexeme =>
      some { kind, lexeme := String.ofList lexeme, position := first.position }

/-- End the collected characters. -/
def flush (kind : Kind) (scanner : Scanner) : Scanner :=
  { scanner with
    found := (token? kind scanner.pending.reverse).toList ++ scanner.found
    pending := [] }

/-- Add the token of a bracket. -/
def bracket (scanner : Scanner) (placed : Placed) : Scanner :=
  { scanner with
    found :=
      { kind := .bracket
        lexeme := String.ofList [placed.character]
        position := placed.position } :: scanner.found }

/-- Scan a character outside quotation marks. -/
def outside (scanner : Scanner) (placed : Placed) : Scanner :=
  if isBracket placed.character then
    (scanner.flush .word).bracket placed
  else if placed.character = '"' then
    { scanner.collect placed with openQuote := some placed.position }
  else if placed.character = ' ' then
    scanner.flush .word
  else
    scanner.collect placed

/-- Scan a character inside quotation marks. -/
def inside (scanner : Scanner) (placed : Placed) : Scanner :=
  if placed.character = '"' then
    ({ scanner.collect placed with openQuote := none }).flush .text
  else
    scanner.collect placed

/-- Scan a character. -/
def step (scanner : Scanner) (placed : Placed) : Scanner :=
  match scanner.openQuote with
  | none => scanner.outside placed
  | some _ => scanner.inside placed

/-- The tokens found when the text is over. -/
def finish (scanner : Scanner) : Except Fault (List Token) :=
  match scanner.openQuote with
  | some position => .error (.unterminatedText position)
  | none => .ok (scanner.flush .word).found.reverse

section Step

variable {scanner : Scanner} {placed : Placed}

/-- A bracket ends the word before it and makes a token of its own. -/
theorem step_bracket
    (outside : scanner.openQuote = none)
    (bracket : isBracket placed.character = true) :
    scanner.step placed = (scanner.flush .word).bracket placed := by
  simp only [step, outside, Scanner.outside, bracket, if_true]

/-- A space ends the word before it and is not kept. -/
theorem step_space
    (outside : scanner.openQuote = none)
    (space : placed.character = ' ') :
    scanner.step placed = scanner.flush .word := by
  have noBracket : isBracket ' ' = false := by decide
  have noMark : (' ' : Char) ≠ '"' := by decide
  simp only [step, outside, Scanner.outside, space, noBracket, noMark, Bool.false_eq_true,
    if_false, if_true]

/-- An opening quotation mark is collected behind whatever stands right before it. -/
theorem step_openingMark
    (outside : scanner.openQuote = none)
    (mark : placed.character = '"') :
    scanner.step placed =
      { scanner.collect placed with openQuote := some placed.position } := by
  have noBracket : isBracket '"' = false := by decide
  simp only [step, outside, Scanner.outside, mark, noBracket, Bool.false_eq_true, if_false,
    if_true]

/-- Any other character outside quotation marks is collected. -/
theorem step_other
    (outside : scanner.openQuote = none)
    (noBracket : isBracket placed.character = false)
    (noMark : placed.character ≠ '"')
    (noSpace : placed.character ≠ ' ') :
    scanner.step placed = scanner.collect placed := by
  simp only [step, outside, Scanner.outside, noBracket, noMark, noSpace, Bool.false_eq_true,
    if_false]

/-- A closing quotation mark is collected and ends the quoted text. -/
theorem step_closingMark
    {opened : Position}
    (inside : scanner.openQuote = some opened)
    (mark : placed.character = '"') :
    scanner.step placed = ({ scanner.collect placed with openQuote := none }).flush .text := by
  simp only [step, inside, Scanner.inside, mark, if_true]

/-- Inside quotation marks everything else is collected, brackets and spaces too. -/
theorem step_quoted
    {opened : Position}
    (inside : scanner.openQuote = some opened)
    (noMark : placed.character ≠ '"') :
    scanner.step placed = scanner.collect placed := by
  simp only [step, inside, Scanner.inside, noMark, if_false]

end Step

end Scanner

/-- The tokens of placed characters. -/
def scan (text : List Placed) : Except Fault (List Token) :=
  (text.foldl Scanner.step Scanner.start).finish

/-- The tokens of source text. -/
def ofSource (source : String) : Except Fault (List Token) :=
  scan (Source.layout source)

end CellScript.Token
