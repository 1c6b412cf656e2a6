import CellScript.Proofs.Lexemes
import Mathlib.Data.List.Chain

namespace CellScript

/-!
# Places of tokens

The tokens of a text, in order, are made of stretches of it with nothing but blank
characters between them.  A token records where its stretch begins.  The stretch may
begin with blank characters that the lexeme has lost, and then the first character
of the lexeme stands further right on the same line.
-/

/-! ## Trimming -/

namespace Text

variable {α : Type}

/-- Trimming takes away blank items at both ends and nothing between them. -/
theorem exists_of_trimBy
    (blank : α → Bool)
    (items : List α) :
    ∃ lead trail,
      items = lead ++ (trimBy blank items ++ trail) ∧
      (∀ item ∈ lead, blank item = true) ∧
      ∀ item ∈ trail, blank item = true := by
  let rest := items.dropWhile blank
  have restSplit : rest = trimBy blank items ++ (rest.reverse.takeWhile blank).reverse := by
    rw [trimBy, ← List.reverse_append, List.takeWhile_append_dropWhile, List.reverse_reverse]
  refine ⟨items.takeWhile blank, (rest.reverse.takeWhile blank).reverse, ?_, ?_, ?_⟩
  · rw [← restSplit]
    exact List.takeWhile_append_dropWhile.symm
  · exact List.all_eq_true.mp List.all_takeWhile
  · intro item isMember
    exact List.all_eq_true.mp List.all_takeWhile item (List.mem_reverse.mp isMember)

end Text

/-! ## Places in source text -/

namespace Placed

/-- What follows a blank character stands in the next column of the same line. -/
def Continues (earlier later : Placed) : Prop :=
  earlier.isBlank = true →
    later.position =
      { line := earlier.position.line, column := earlier.position.column + 1 }

theorem isChain_ofLine
    (line : Nat)
    (text : List Char) :
    (ofLine line text).IsChain Continues := by
  rw [List.isChain_iff_getElem]
  intro place within _
  simp [ofLine, Nat.add_assoc]

/-- Behind blank characters, a text goes on in the column after them. -/
theorem position_of_isChain
    {lead rest : List Placed}
    {first : Placed}
    (chain : (lead ++ first :: rest).IsChain Continues)
    (blank : ∀ placed ∈ lead, placed.isBlank = true) :
    first.position =
      { line := (lead.headD first).position.line
        column := (lead.headD first).position.column + lead.length } := by
  induction lead with
  | nil => rfl
  | cons placed lead inductionHypothesis =>
      rw [List.cons_append, List.isChain_cons] at chain
      have isNext : (lead ++ first :: rest).head? = some (lead.headD first) := by
        cases lead <;> rfl
      have next := chain.1 _ isNext (blank placed List.mem_cons_self)
      rw [inductionHypothesis chain.2 fun other isOther => blank other (.tail _ isOther), next]
      simp [Nat.add_assoc, Nat.add_comm 1]

end Placed

namespace Source

/-- The character of source text in a column of a line; lines and columns count from one. -/
def characterAt? (source : String) : Position → Option Char
  | { line := line + 1, column := column + 1 } => do
      let text ← (Text.pieces source.toList)[line]?
      text[column]?
  | _ => none

/-- The characters that are read stand in the source where they say. -/
theorem characterAt?_of_mem_layout
    {source : String}
    {placed : Placed}
    (member : placed ∈ layout source) :
    characterAt? source placed.position = some placed.character := by
  obtain ⟨text, isPiece, isNumbered⟩ := exists_of_mem_layout member
  obtain ⟨character, line, column⟩ := placed
  dsimp only at isPiece isNumbered ⊢
  obtain ⟨lineCounts, textAt⟩ := List.mk_mem_zipIdx_iff_le_and_getElem?_sub.mp isPiece
  obtain ⟨columnCounts, standsAt⟩ := List.mk_mem_zipIdx_iff_le_and_getElem?_sub.mp isNumbered
  obtain ⟨line, rfl⟩ := Nat.exists_eq_add_of_le' lineCounts
  obtain ⟨column, rfl⟩ := Nat.exists_eq_add_of_le' columnCounts
  rw [Nat.add_sub_cancel] at textAt standsAt
  simp [characterAt?, textAt, standsAt]

/-- Lines that end with a character that is not blank may be joined. -/
theorem isChain_flatten
    {lines : List (List Placed)}
    (chains : ∀ line ∈ lines, line.IsChain Placed.Continues)
    (ends : ∀ line ∈ lines, ∀ last ∈ line.getLast?, last.isBlank = false) :
    lines.flatten.IsChain Placed.Continues := by
  induction lines with
  | nil => exact .nil
  | cons line rest inductionHypothesis =>
      rw [List.flatten_cons, List.isChain_append]
      refine ⟨chains line List.mem_cons_self, ?_, ?_⟩
      · exact inductionHypothesis
          (fun other isOther => chains other (.tail _ isOther))
          (fun other isOther => ends other (.tail _ isOther))
      · intro last isLast next _ blank
        rw [ends line List.mem_cons_self last isLast] at blank
        cases blank

/-- What is read behind a blank character stands right behind it in the source. -/
theorem isChain_layout
    (source : String) :
    (layout source).IsChain Placed.Continues := by
  apply isChain_flatten
  · intro trimmed isLine
    obtain ⟨line, isPlaced, rfl⟩ := List.mem_map.mp isLine
    obtain ⟨⟨text, number⟩, _, rfl⟩ := List.mem_map.mp isPlaced
    have chain := Placed.isChain_ofLine number text
    obtain ⟨lead, trail, split, _, _⟩ :=
      Text.exists_of_trimBy Placed.isBlank (Placed.ofLine number text)
    rw [split] at chain
    exact chain.right_of_append.left_of_append
  · intro trimmed isLine last isLast
    obtain ⟨line, _, rfl⟩ := List.mem_map.mp isLine
    exact Text.bare_getLast?_trimBy isLast

end Source

/-! ## Stretches of text -/

namespace Token

open Lexeme

/--
The characters that a token was made of: those of its lexeme, with the blank
characters that were collected in front of them and behind them.
-/
structure Stretch where
  token : Token
  lead : List Placed
  first : Placed
  others : List Placed
  trail : List Placed
  lexeme : token.lexeme.toList = Placed.characters (first :: others)
  position : token.position = (lead.headD first).position
  leadBlank : ∀ placed ∈ lead, placed.isBlank = true
  bare : first.isBlank = false
  trailBlank : ∀ placed ∈ trail, placed.isBlank = true
  noSpace : ∀ placed, lead.head? = some placed → placed.character ≠ ' '

/-- The whole of a stretch. -/
def Stretch.text (stretch : Stretch) : List Placed :=
  stretch.lead ++ stretch.first :: (stretch.others ++ stretch.trail)

/-- Placed text is made up of stretches, in order, and of blank characters between them. -/
inductive Tiles : List Stretch → List Placed → Prop where
  | ends :
      Tiles [] []
  | gap
      {stretches : List Stretch}
      {placed : Placed}
      {text : List Placed}
      (blank : placed.isBlank = true)
      (rest : Tiles stretches text) :
      Tiles stretches (placed :: text)
  | stretch
      {stretches : List Stretch}
      {text : List Placed}
      (first : Stretch)
      (rest : Tiles stretches text) :
      Tiles (first :: stretches) (first.text ++ text)

namespace Tiles

variable {stretches : List Stretch} {text : List Placed}

/-- Blank characters in front of placed text are a gap. -/
theorem gaps
    {blanks : List Placed}
    (blank : ∀ placed ∈ blanks, placed.isBlank = true)
    (rest : Tiles stretches text) :
    Tiles stretches (blanks ++ text) := by
  induction blanks with
  | nil => exact rest
  | cons placed blanks inductionHypothesis =>
      exact .gap (blank placed List.mem_cons_self)
        (inductionHypothesis fun other isOther => blank other (.tail _ isOther))

/-- A stretch stands in the text in one piece. -/
theorem isInfix_of_mem
    {stretch : Stretch}
    (tiles : Tiles stretches text)
    (isMember : stretch ∈ stretches) :
    stretch.text <:+: text := by
  induction tiles with
  | ends => cases isMember
  | gap blank rest inductionHypothesis =>
      exact (inductionHypothesis isMember).trans (List.suffix_cons _ _).isInfix
  | stretch first rest inductionHypothesis =>
      rcases List.mem_cons.mp isMember with rfl | isLater
      · exact (List.prefix_append _ _).isInfix
      · exact (inductionHypothesis isLater).trans (List.suffix_append _ _).isInfix

end Tiles

/-! ## What the scanner makes of the text -/

namespace Scanner

variable {kind : Kind} {collected : List Placed}

theorem position_of_token?
    {first : Placed}
    {rest : List Placed}
    {token : Token}
    (made : token? kind (first :: rest) = some token) :
    token.position = first.position := by
  cases trimmed : Text.trim (Placed.characters (first :: rest)) with
  | nil => simp [token?, trimmed] at made
  | cons character more =>
      simp only [token?, trimmed, Option.some.injEq] at made
      rw [← made]

/-- What makes no token is blank altogether. -/
theorem blank_of_token?
    (made : token? kind collected = none) :
    ∀ placed ∈ collected, placed.isBlank = true := by
  have nothingLeft : Text.trimBy Placed.isBlank collected = [] := by
    rw [← List.map_eq_nil_iff]
    change Placed.characters _ = []
    rw [Placed.characters_trimBy]
    cases collected with
    | nil => rfl
    | cons first rest =>
        cases trimmed : Text.trim (Placed.characters (first :: rest)) with
        | nil => rfl
        | cons character more => simp [token?, trimmed] at made
  obtain ⟨lead, trail, split, leadBlank, trailBlank⟩ :=
    Text.exists_of_trimBy Placed.isBlank collected
  rw [split, nothingLeft]
  intro placed isMember
  rcases List.mem_append.mp isMember with inLead | inTrail
  · exact leadBlank placed inLead
  · exact trailBlank placed inTrail

/-- The characters that a token is made of are a stretch. -/
theorem exists_stretch_of_token?
    {token : Token}
    (noSpace : ∀ placed, collected.head? = some placed → placed.character ≠ ' ')
    (made : token? kind collected = some token) :
    ∃ stretch : Stretch, stretch.token = token ∧ stretch.text = collected := by
  obtain ⟨lead, trail, split, leadBlank, trailBlank⟩ :=
    Text.exists_of_trimBy Placed.isBlank collected
  obtain ⟨lexeme, nonempty⟩ := lexeme_of_token? made
  rw [← Placed.characters_trimBy] at lexeme nonempty
  cases middle : Text.trimBy Placed.isBlank collected with
  | nil =>
      rw [middle] at nonempty
      exact absurd rfl nonempty
  | cons first others =>
      rw [middle] at lexeme split
      have isHead : collected.head? = some (lead.headD first) := by
        rw [split]
        cases lead <;> rfl
      have position : token.position = (lead.headD first).position := by
        cases collected with
        | nil => cases isHead
        | cons placed rest =>
            cases isHead
            exact position_of_token? made
      have bare : first.isBlank = false := Text.bare_head?_trimBy (by rw [middle]; rfl)
      have noSpaceInFront : ∀ placed, lead.head? = some placed → placed.character ≠ ' ' := by
        intro placed isFront
        apply noSpace
        rw [split, List.head?_append, isFront]
        rfl
      exact ⟨{ token, lead, first, others, trail, lexeme, position, leadBlank, bare, trailBlank
               noSpace := noSpaceInFront }, rfl, split.symm⟩

/-- The tokens are those found before and those of what is collected and still to come. -/
def Finds (scanner : Scanner) (rest : List Placed) (tokens : List Token) : Prop :=
  ∃ stretches,
    Tiles stretches (scanner.pending.reverse ++ rest) ∧
    tokens = scanner.found.reverse ++ stretches.map Stretch.token

namespace Finds

variable {scanner : Scanner} {placed : Placed} {rest : List Placed} {tokens : List Token}

theorem of_collect
    (finds : (scanner.collect placed).Finds rest tokens) :
    scanner.Finds (placed :: rest) tokens := by
  obtain ⟨stretches, tiles, same⟩ := finds
  exact ⟨stretches, by simpa [collect] using tiles, same⟩

/-- What was collected and ended makes a stretch, or a gap if it is all blank. -/
theorem of_flush
    (noSpace : ∀ placed, scanner.pending.getLast? = some placed → placed.character ≠ ' ')
    (finds : (scanner.flush kind).Finds rest tokens) :
    scanner.Finds rest tokens := by
  obtain ⟨stretches, tiles, rfl⟩ := finds
  cases made : token? kind scanner.pending.reverse with
  | none =>
      refine ⟨stretches, tiles.gaps (blank_of_token? made), ?_⟩
      simp [flush, made]
  | some token =>
      rw [← List.head?_reverse] at noSpace
      obtain ⟨stretch, rfl, text⟩ := exists_stretch_of_token? noSpace made
      refine ⟨stretch :: stretches, ?_, ?_⟩
      · rw [← text]
        exact .stretch stretch tiles
      · simp [flush, made]

/-- A space behind characters that it ends is a gap. -/
theorem of_flush_space
    (noSpace : ∀ placed, scanner.pending.getLast? = some placed → placed.character ≠ ' ')
    (space : placed.character = ' ')
    (finds : (scanner.flush kind).Finds rest tokens) :
    scanner.Finds (placed :: rest) tokens := by
  obtain ⟨stretches, tiles, same⟩ := finds
  have blank : placed.isBlank = true := by
    rw [Placed.isBlank, space]
    exact Text.isBlank_space
  exact of_flush noSpace ⟨stretches, .gap blank tiles, same⟩

/-- A bracket is a stretch of its own. -/
theorem of_flush_bracket
    (noSpace : ∀ placed, scanner.pending.getLast? = some placed → placed.character ≠ ' ')
    (isBracket : isBracket placed.character = true)
    (finds : ((scanner.flush kind).bracket placed).Finds rest tokens) :
    scanner.Finds (placed :: rest) tokens := by
  obtain ⟨stretches, tiles, rfl⟩ := finds
  let stretch : Stretch :=
    { token :=
        { kind := .bracket
          lexeme := String.ofList [placed.character]
          position := placed.position }
      lead := []
      first := placed
      others := []
      trail := []
      lexeme := String.toList_ofList
      position := rfl
      leadBlank := nofun
      bare := isBlank_of_isBracket isBracket
      trailBlank := nofun
      noSpace := nofun }
  have rests : (scanner.flush kind).Finds (placed :: rest) _ :=
    ⟨stretch :: stretches, .stretch stretch tiles, rfl⟩
  have same : ((scanner.flush kind).bracket placed).found.reverse =
      (scanner.flush kind).found.reverse ++ [stretch.token] := by
    simp [bracket, stretch]
  rw [same, List.append_assoc]
  exact of_flush noSpace rests

end Finds

variable {scanner : Scanner} {placed : Placed} {rest : List Placed} {tokens : List Token}

/-- What is collected outside quotation marks has no space. -/
theorem Formed.ne_space_of_outside
    (formed : scanner.Formed)
    (outside : scanner.openQuote = none) :
    ∀ placed, scanner.pending.getLast? = some placed → placed.character ≠ ' ' := by
  intro placed isLast
  exact ne_of_isPlain (formed.plain outside placed (List.mem_of_getLast? isLast)) (by decide)

/-- What is collected for a text in quotation marks begins with a word or a mark. -/
theorem Formed.ne_space_of_inside
    {opened : Position}
    (formed : scanner.Formed)
    (inside : scanner.openQuote = some opened)
    (closing : Placed) :
    ∀ placed, (closing :: scanner.pending).getLast? = some placed → placed.character ≠ ' ' := by
  obtain ⟨content, mark, word, pending, isMark, _, plain⟩ := formed.quoted opened inside
  intro placed isLast
  rw [pending, ← List.cons_append, List.getLast?_append_cons] at isLast
  rcases List.mem_cons.mp (List.mem_of_getLast? isLast) with rfl | inWord
  · rw [isMark]
    decide
  · exact ne_of_isPlain (plain placed inWord) (by decide)

/-- What is found after one more character is found with this character still to come. -/
theorem Finds.of_step
    (formed : scanner.Formed)
    (finds : (scanner.step placed).Finds rest tokens) :
    scanner.Finds (placed :: rest) tokens := by
  cases isOpen : scanner.openQuote with
  | none =>
      have noSpace := formed.ne_space_of_outside isOpen
      by_cases bracket : isBracket placed.character = true
      · rw [step_bracket isOpen bracket] at finds
        exact .of_flush_bracket noSpace bracket finds
      · rw [Bool.not_eq_true] at bracket
        by_cases mark : placed.character = '"'
        · rw [step_openingMark isOpen mark] at finds
          exact .of_collect finds
        · by_cases space : placed.character = ' '
          · rw [step_space isOpen space] at finds
            exact .of_flush_space noSpace space finds
          · rw [step_other isOpen bracket mark space] at finds
            exact .of_collect finds
  | some opened =>
      by_cases mark : placed.character = '"'
      · rw [step_closingMark isOpen mark] at finds
        exact .of_collect (.of_flush (formed.ne_space_of_inside isOpen placed) finds)
      · rw [step_quoted isOpen mark] at finds
        exact .of_collect finds

/-- A scanner that gets through finds the tokens that it has found and those still to come. -/
theorem Finds.of_run
    {text : List Placed}
    (formed : scanner.Formed)
    (noLineFeed : ∀ placed ∈ text, placed.character ≠ '\n')
    (scanned : (text.foldl step scanner).finish = .ok tokens) :
    scanner.Finds text tokens := by
  induction text generalizing scanner with
  | nil =>
      rw [List.foldl_nil, finish] at scanned
      split at scanned
      · cases scanned
      · next outside =>
          cases scanned
          have ends : (scanner.flush .word).Finds [] (scanner.flush .word).found.reverse :=
            ⟨[], .ends, by simp⟩
          exact .of_flush (formed.ne_space_of_outside outside) ends
  | cons placed rest inductionHypothesis =>
      have stepped := formed.step (noLineFeed placed List.mem_cons_self)
      exact .of_step formed
        (inductionHypothesis stepped (fun other isOther => noLineFeed other (.tail _ isOther))
          scanned)

end Scanner

/-- The tokens of scanned text are those of stretches that make up the text. -/
theorem tiles_of_scan
    {text : List Placed}
    {tokens : List Token}
    (noLineFeed : ∀ placed ∈ text, placed.character ≠ '\n')
    (scanned : scan text = .ok tokens) :
    ∃ stretches, Tiles stretches text ∧ stretches.map Stretch.token = tokens := by
  obtain ⟨stretches, tiles, same⟩ := Scanner.Finds.of_run Scanner.formed_start noLineFeed scanned
  exact ⟨stretches, tiles, same.symm⟩

/-- The first character of a lexeme stands behind the blanks in front, on the same line. -/
theorem Stretch.position_first
    {stretch : Stretch}
    (chain : stretch.text.IsChain Placed.Continues) :
    stretch.first.position =
      { line := stretch.token.position.line
        column := stretch.token.position.column + stretch.lead.length } := by
  rw [stretch.position]
  exact Placed.position_of_isChain chain stretch.leadBlank

/-- A token has the place of its first character if and only if no blank was collected before it. -/
theorem Stretch.position_eq_iff
    {stretch : Stretch}
    (chain : stretch.text.IsChain Placed.Continues) :
    stretch.token.position = stretch.first.position ↔ stretch.lead = [] := by
  rw [position_first chain]
  constructor
  · intro same
    have sameColumn := congrArg Position.column same
    exact List.eq_nil_of_length_eq_zero (Nat.left_eq_add.mp sameColumn)
  · intro noLead
    simp [noLead]

theorem Stretch.lead_eq_nil_iff
    (stretch : Stretch) :
    stretch.lead = [] ↔ (stretch.lead.headD stretch.first).isBlank = false := by
  have leadBlank := stretch.leadBlank
  cases lead : stretch.lead with
  | nil => exact iff_of_true rfl stretch.bare
  | cons placed rest =>
      have blank : placed.isBlank = true := leadBlank placed (by rw [lead]; exact .head _)
      exact iff_of_false (List.cons_ne_nil _ _) (ne_true_of_eq_false · blank)

/-- The character whose place a token has belongs to its stretch. -/
theorem Stretch.headD_mem_text
    (stretch : Stretch) :
    stretch.lead.headD stretch.first ∈ stretch.text := by
  rw [text]
  cases stretch.lead with
  | nil => exact List.mem_cons_self
  | cons placed lead => exact List.mem_cons_self

/-- A stretch of text without blanks other than spaces begins with its lexeme. -/
theorem Stretch.lead_eq_nil_of_spaces
    {stretch : Stretch}
    (spaces : ∀ placed ∈ stretch.text, placed.isBlank = true → placed.character = ' ') :
    stretch.lead = [] := by
  cases lead : stretch.lead with
  | nil => rfl
  | cons placed rest =>
      have isFront : stretch.lead.head? = some placed := by rw [lead]; rfl
      have inLead : placed ∈ stretch.lead := List.mem_of_head? isFront
      have isSpace := spaces placed (List.mem_append_left _ inLead) (stretch.leadBlank placed inLead)
      exact absurd isSpace (stretch.noSpace placed isFront)

/--
The tokens of a script are made of stretches of what is read, with nothing but blank
characters between them, and each lexeme begins with the first character of its
stretch that is not blank.  The token records where the stretch begins.  This is the
place of the first character unless a blank character stands there, and never
misses it where spaces are the only blanks between the characters of a line.
-/
theorem ofSource_places
    {source : String}
    {tokens : List Token}
    (scanned : ofSource source = .ok tokens) :
    ∃ stretches,
      Tiles stretches (Source.layout source) ∧
      stretches.map Stretch.token = tokens ∧
      ∀ stretch ∈ stretches,
        Source.characterAt? source stretch.first.position = some stretch.first.character ∧
        stretch.first.position =
          { line := stretch.token.position.line
            column := stretch.token.position.column + stretch.lead.length } ∧
        (stretch.token.position = stretch.first.position ↔
          ∀ character ∈ Source.characterAt? source stretch.token.position,
            Text.isBlank character = false) ∧
        ((∀ placed ∈ Source.layout source, placed.isBlank = true → placed.character = ' ') →
          stretch.token.position = stretch.first.position) := by
  obtain ⟨stretches, tiles, same⟩ :=
    tiles_of_scan (fun _ => Source.ne_lineFeed_of_mem_layout) scanned
  refine ⟨stretches, tiles, same, fun stretch isMember => ?_⟩
  have isPart := tiles.isInfix_of_mem isMember
  have first :
      Source.characterAt? source stretch.first.position = some stretch.first.character :=
    Source.characterAt?_of_mem_layout (isPart.subset (by simp [Stretch.text]))
  have recorded :
      Source.characterAt? source stretch.token.position =
        some (stretch.lead.headD stretch.first).character := by
    rw [stretch.position]
    exact Source.characterAt?_of_mem_layout (isPart.subset stretch.headD_mem_text)
  have chain : stretch.text.IsChain Placed.Continues := by
    obtain ⟨before, after, whole⟩ := isPart
    have wholeChain := Source.isChain_layout source
    rw [← whole] at wholeChain
    exact wholeChain.left_of_append.right_of_append
  refine ⟨first, stretch.position_first chain, ?_, ?_⟩
  · rw [Stretch.position_eq_iff chain, recorded, Stretch.lead_eq_nil_iff]
    simp [Placed.isBlank]
  · intro spaces
    rw [Stretch.position_eq_iff chain]
    exact Stretch.lead_eq_nil_of_spaces fun placed inText => spaces placed (isPart.subset inText)

/-- A tab that indents a line shifts no place, and neither does a space inside a lexeme. -/
theorem places_behind_indentation :
    ∃ stretches,
      Tiles stretches (Source.layout "(f\n\t\"a b\")") ∧
      stretches.map Stretch.token =
        [{ kind := .bracket, lexeme := "(", position := { line := 1, column := 1 } },
          { kind := .text, lexeme := "f\"a b\"", position := { line := 1, column := 2 } },
          { kind := .bracket, lexeme := ")", position := { line := 2, column := 7 } }] ∧
      ∀ stretch ∈ stretches, stretch.token.position = stretch.first.position := by
  have scanned : ofSource "(f\n\t\"a b\")" =
      .ok
        [{ kind := .bracket, lexeme := "(", position := { line := 1, column := 1 } },
          { kind := .text, lexeme := "f\"a b\"", position := { line := 1, column := 2 } },
          { kind := .bracket, lexeme := ")", position := { line := 2, column := 7 } }] := by
    decide +kernel
  obtain ⟨stretches, tiles, same, places⟩ := ofSource_places scanned
  have spaces : ∀ placed ∈ Source.layout "(f\n\t\"a b\")",
      placed.isBlank = true → placed.character = ' ' := by
    decide +kernel
  exact ⟨stretches, tiles, same, fun stretch isMember => (places stretch isMember).2.2.2 spaces⟩

/-- A word behind a space and a tab is recorded where the tab stands. -/
theorem tab_is_taken_for_first_character :
    ofSource "a \tb" =
        .ok
          [{ kind := .word, lexeme := "a", position := { line := 1, column := 1 } },
            { kind := .word, lexeme := "b", position := { line := 1, column := 3 } }] ∧
      Source.characterAt? "a \tb" { line := 1, column := 3 } = some '\t' ∧
      Source.characterAt? "a \tb" { line := 1, column := 4 } = some 'b' := by
  refine ⟨?_, ?_, ?_⟩ <;> decide +kernel

end Token

end CellScript
