import CellScript.Proofs.Grammar

namespace CellScript

/-!
# Lexemes

The characters of a token have one of three forms.  The lexeme of a word is
trimmed and has none of the characters that end a word.  The lexeme of a text is
such a word, possibly none, with a text in quotation marks glued to it; only the
front of it can have been trimmed.  The lexeme of a bracket is that bracket.
-/

/-! ## Trimming -/

namespace Text

variable {α : Type} {blank : α → Bool}

/-- Trimming only leaves items out. -/
theorem trimBy_sublist
    (blank : α → Bool)
    (items : List α) :
    (trimBy blank items).Sublist items := by
  have back := (List.dropWhile_sublist (l := (items.dropWhile blank).reverse) blank).reverse
  rw [List.reverse_reverse] at back
  exact back.trans (List.dropWhile_sublist blank)

theorem mem_of_mem_trimBy
    {item : α}
    {items : List α}
    (member : item ∈ trimBy blank items) :
    item ∈ items :=
  (trimBy_sublist blank items).subset member

/-- Nothing is dropped in front of an item that is not blank. -/
theorem dropWhile_of_bare
    {items : List α}
    (bare : ∀ first, items.head? = some first → blank first = false) :
    items.dropWhile blank = items := by
  cases items with
  | nil => rfl
  | cons first rest => simp [bare first rfl]

/-- What is blank at neither end is left as it is. -/
theorem trimBy_of_bare
    {items : List α}
    (bareFront : ∀ first, items.head? = some first → blank first = false)
    (bareBack : ∀ last, items.getLast? = some last → blank last = false) :
    trimBy blank items = items := by
  rw [trimBy, dropWhile_of_bare bareFront, dropWhile_of_bare, List.reverse_reverse]
  intro last isLast
  exact bareBack last (by rw [← List.head?_reverse, isLast])

private theorem bare_dropWhile
    {items : List α}
    {first : α}
    (isFirst : (items.dropWhile blank).head? = some first) :
    blank first = false := by
  have bare := List.head?_dropWhile_not blank items
  rw [isFirst] at bare
  simpa using bare

/-- Dropping from the front never takes away a last item that is not blank. -/
theorem getLast?_dropWhile
    {items : List α}
    {last : α}
    (isLast : items.getLast? = some last)
    (bare : blank last = false) :
    (items.dropWhile blank).getLast? = some last := by
  obtain ⟨front, rfl⟩ := List.getLast?_eq_some_iff.mp isLast
  rw [List.dropWhile_append]
  split
  · simp [bare]
  · simp

/-- What is left after trimming begins with an item that is not blank. -/
theorem bare_head?_trimBy
    {items : List α}
    {first : α}
    (isFirst : (trimBy blank items).head? = some first) :
    blank first = false := by
  rw [trimBy, List.head?_reverse] at isFirst
  cases dropped : (items.dropWhile blank).head? with
  | none =>
      rw [List.head?_eq_none_iff] at dropped
      simp [dropped] at isFirst
  | some other =>
      have bare := bare_dropWhile dropped
      rw [← List.getLast?_reverse] at dropped
      rw [getLast?_dropWhile dropped bare] at isFirst
      cases isFirst
      exact bare

/-- What is left after trimming ends with an item that is not blank. -/
theorem bare_getLast?_trimBy
    {items : List α}
    {last : α}
    (isLast : (trimBy blank items).getLast? = some last) :
    blank last = false := by
  rw [trimBy, List.getLast?_reverse] at isLast
  exact bare_dropWhile isLast

/-- Nothing is left to trim after trimming. -/
theorem trimBy_trimBy
    (items : List α) :
    trimBy blank (trimBy blank items) = trimBy blank items :=
  trimBy_of_bare (fun _ => bare_head?_trimBy) (fun _ => bare_getLast?_trimBy)

/-- Between two trimmed lists that are not empty there is nothing to trim. -/
theorem trimBy_append_of_trimmed
    {front back : List α}
    (between : α)
    (someFront : front ≠ [])
    (someBack : back ≠ [])
    (trimmedFront : trimBy blank front = front)
    (trimmedBack : trimBy blank back = back) :
    trimBy blank (front ++ between :: back) = front ++ between :: back := by
  refine trimBy_of_bare (fun first isFirst => ?_) (fun last isLast => ?_)
  · rw [List.head?_append, List.head?_eq_some_head someFront, Option.some_or,
      ← List.head?_eq_some_head someFront, ← trimmedFront] at isFirst
    exact bare_head?_trimBy isFirst
  · rw [List.append_cons, List.getLast?_append, List.getLast?_eq_some_getLast someBack,
      Option.some_or, ← List.getLast?_eq_some_getLast someBack, ← trimmedBack] at isLast
    exact bare_getLast?_trimBy isLast

/-- Before something that is not blank, and at the end too, only the front is trimmed. -/
theorem trimBy_of_mark
    {mark last : α}
    (front middle : List α)
    (bareMark : blank mark = false)
    (bareLast : blank last = false) :
    trimBy blank (front ++ mark :: (middle ++ [last])) =
      front.dropWhile blank ++ mark :: (middle ++ [last]) := by
  have dropped :
      (front ++ mark :: (middle ++ [last])).dropWhile blank =
        front.dropWhile blank ++ mark :: (middle ++ [last]) := by
    rw [List.dropWhile_append]
    split
    · rename_i empty
      rw [List.isEmpty_iff.mp empty]
      simp [bareMark]
    · rfl
  rw [trimBy, dropped, dropWhile_of_bare, List.reverse_reverse]
  intro first isFirst
  rw [List.head?_reverse, ← List.cons_append, ← List.append_assoc,
    List.getLast?_concat] at isFirst
  cases isFirst
  exact bareLast

/-- No piece of a text has a line feed. -/
theorem not_mem_of_mem_pieces
    {text piece : List Char}
    (member : piece ∈ pieces text) :
    '\n' ∉ piece := by
  induction text generalizing piece with
  | nil =>
      rw [List.mem_singleton.mp member]
      exact List.not_mem_nil
  | cons character rest inductionHypothesis =>
      simp only [pieces, piecesBy] at member inductionHypothesis
      split at member
      · rcases List.mem_cons.mp member with rfl | inRest
        · exact List.not_mem_nil
        · exact inductionHypothesis inRest
      · rename_i noLineFeed
        have differs : '\n' ≠ character := by
          rintro rfl
          exact noLineFeed rfl
        split at member
        · rw [List.mem_singleton.mp member]
          simpa using differs
        · rename_i first others split
          rcases List.mem_cons.mp member with rfl | isOther
          · rw [List.mem_cons, not_or]
            exact ⟨differs, inductionHypothesis (by rw [split]; exact List.mem_cons_self)⟩
          · exact inductionHypothesis (by rw [split]; exact List.mem_cons_of_mem first isOther)

end Text

/-! ## Forms of lexemes -/

namespace Lexeme

/-- A character that can stand in a word. -/
def isPlain (character : Char) : Bool :=
  !Token.isBracket character &&
    (character ≠ '"' && (character ≠ ' ' && character ≠ '\n'))

/-- A character that can stand between quotation marks. -/
def isQuotable (character : Char) : Bool :=
  character ≠ '"' && character ≠ '\n'

/-- The characters of a word. -/
structure IsWord (lexeme : List Char) : Prop where
  nonempty : lexeme ≠ []
  trimmed : Text.trim lexeme = lexeme
  plain : ∀ character ∈ lexeme, isPlain character = true

instance (lexeme : List Char) : Decidable (IsWord lexeme) :=
  decidable_of_iff
    (lexeme ≠ [] ∧ Text.trim lexeme = lexeme ∧ lexeme.all isPlain = true)
    ⟨fun ⟨nonempty, trimmed, plain⟩ => ⟨nonempty, trimmed, List.all_eq_true.mp plain⟩,
      fun word => ⟨word.nonempty, word.trimmed, List.all_eq_true.mpr word.plain⟩⟩

/-- The characters of a text in quotation marks and of the word glued to its front. -/
structure IsQuotation (lexeme : List Char) : Prop where
  trimmed : Text.trim lexeme = lexeme
  parts : ∃ word content,
    lexeme = word ++ '"' :: (content ++ ['"']) ∧
      (∀ character ∈ word, isPlain character = true) ∧
      ∀ character ∈ content, isQuotable character = true

theorem ne_of_isPlain
    {character other : Char}
    (plain : isPlain character = true)
    (excluded : isPlain other = false) :
    character ≠ other := by
  rintro rfl
  rw [excluded] at plain
  cases plain

theorem noBracket_of_isPlain
    {character : Char}
    (plain : isPlain character = true) :
    Token.isBracket character = false := by
  simp only [isPlain, Bool.and_eq_true, Bool.not_eq_true'] at plain
  exact plain.1

/-- What is neither a bracket, a quotation mark, a space nor a line feed is plain. -/
theorem isPlain_of_other
    {character : Char}
    (noBracket : Token.isBracket character = false)
    (noQuote : character ≠ '"')
    (noSpace : character ≠ ' ')
    (noLineFeed : character ≠ '\n') :
    isPlain character = true := by
  simp [isPlain, noBracket, noQuote, noSpace, noLineFeed]

theorem ne_of_isQuotable
    {character other : Char}
    (quotable : isQuotable character = true)
    (excluded : isQuotable other = false) :
    character ≠ other := by
  rintro rfl
  rw [excluded] at quotable
  cases quotable

/-- Plain characters make a word when what is left of them after trimming is not empty. -/
theorem isWord_trim
    {text : List Char}
    (nonempty : Text.trim text ≠ [])
    (plain : ∀ character ∈ text, isPlain character = true) :
    IsWord (Text.trim text) where
  nonempty := nonempty
  trimmed := Text.trimBy_trimBy text
  plain character member := plain character (Text.mem_of_mem_trimBy member)

/-- A word glued to a text in quotation marks is trimmed to a quotation. -/
theorem isQuotation_trim
    {word content : List Char}
    (plain : ∀ character ∈ word, isPlain character = true)
    (quotable : ∀ character ∈ content, isQuotable character = true) :
    IsQuotation (Text.trim (word ++ '"' :: (content ++ ['"']))) where
  trimmed := Text.trimBy_trimBy _
  parts := by
    refine ⟨word.dropWhile Text.isBlank, content, ?_, ?_, quotable⟩
    · exact Text.trimBy_of_mark word content Text.isBlank_quote Text.isBlank_quote
    · intro character member
      exact plain character ((List.dropWhile_sublist Text.isBlank).subset member)

end Lexeme

/-! ## Tokens of scanned text -/

namespace Token

open Lexeme

/-- A token has the characters that its kind says. -/
def Formed (token : Token) : Prop :=
  match token.kind with
  | .word => IsWord token.lexeme.toList
  | .text => IsQuotation token.lexeme.toList
  | .bracket => ∃ character, isBracket character = true ∧ token.lexeme.toList = [character]

namespace Scanner

/-- What is found is formed, and what is collected can still become so. -/
structure Formed (scanner : Scanner) : Prop where
  found : ∀ token ∈ scanner.found, token.Formed
  plain : scanner.openQuote = none →
    ∀ placed ∈ scanner.pending, isPlain placed.character = true
  quoted : ∀ opened, scanner.openQuote = some opened →
    ∃ content mark word,
      scanner.pending = content ++ mark :: word ∧
      mark.character = '"' ∧
      (∀ placed ∈ content, isQuotable placed.character = true) ∧
      ∀ placed ∈ word, isPlain placed.character = true

/-- The lexeme of a token is what is left of the collected characters when they are trimmed. -/
theorem lexeme_of_token?
    {kind : Kind}
    {collected : List Placed}
    {token : Token}
    (made : token? kind collected = some token) :
    token.lexeme.toList = Text.trim (Placed.characters collected) ∧
      Text.trim (Placed.characters collected) ≠ [] := by
  simp only [token?] at made
  split at made
  · contradiction
  · contradiction
  · cases made
    exact ⟨String.toList_ofList, by assumption⟩

/-- The token of plain characters is a word. -/
theorem formed_of_plain
    {pending : List Placed}
    {token : Token}
    (plain : ∀ placed ∈ pending, isPlain placed.character = true)
    (made : token? .word pending.reverse = some token) :
    token.Formed := by
  obtain ⟨lexeme, nonempty⟩ := lexeme_of_token? made
  rw [Token.Formed, kind_of_token? made, lexeme]
  apply isWord_trim nonempty
  intro character member
  obtain ⟨placed, isMember, rfl⟩ := List.mem_map.mp member
  exact plain placed (List.mem_reverse.mp isMember)

/-- The token of a text that has just been closed has the form of a text. -/
theorem formed_of_quoted
    {content word : List Placed}
    {opening closing : Placed}
    {token : Token}
    (opens : opening.character = '"')
    (closes : closing.character = '"')
    (quotable : ∀ placed ∈ content, isQuotable placed.character = true)
    (plain : ∀ placed ∈ word, isPlain placed.character = true)
    (made : token? .text (closing :: (content ++ opening :: word)).reverse = some token) :
    token.Formed := by
  obtain ⟨lexeme, -⟩ := lexeme_of_token? made
  have collected :
      Placed.characters (closing :: (content ++ opening :: word)).reverse =
        Placed.characters word.reverse ++
          '"' :: (Placed.characters content.reverse ++ ['"']) := by
    simp [Placed.characters, opens, closes]
  rw [Token.Formed, kind_of_token? made, lexeme, collected]
  apply isQuotation_trim
  · intro character member
    obtain ⟨placed, isMember, rfl⟩ := List.mem_map.mp member
    exact plain placed (List.mem_reverse.mp isMember)
  · intro character member
    obtain ⟨placed, isMember, rfl⟩ := List.mem_map.mp member
    exact quotable placed (List.mem_reverse.mp isMember)

/-- Ending what is collected outside quotation marks adds at most a word. -/
theorem Formed.flush
    {scanner : Scanner}
    (formed : scanner.Formed)
    (outside : scanner.openQuote = none) :
    (scanner.flush .word).Formed where
  found token member := by
    rcases List.mem_append.mp member with isNew | isOld
    · exact formed_of_plain (formed.plain outside) (Option.mem_toList.mp isNew)
    · exact formed.found token isOld
  plain _ _ member := absurd member List.not_mem_nil
  quoted opened isOpen := by
    change scanner.openQuote = some opened at isOpen
    rw [outside] at isOpen
    cases isOpen

/-- Scanning one more character keeps all tokens found well-formed. -/
theorem Formed.step
    {scanner : Scanner}
    {placed : Placed}
    (formed : scanner.Formed)
    (noLineFeed : placed.character ≠ '\n') :
    (scanner.step placed).Formed := by
  cases isOpen : scanner.openQuote with
  | none =>
      have flushed := formed.flush isOpen
      by_cases bracket : isBracket placed.character = true
      · rw [step_bracket isOpen bracket]
        refine ⟨?_, flushed.plain, flushed.quoted⟩
        intro token member
        rcases List.mem_cons.mp member with rfl | isOld
        · exact ⟨placed.character, bracket, String.toList_ofList⟩
        · exact flushed.found token isOld
      · rw [Bool.not_eq_true] at bracket
        by_cases mark : placed.character = '"'
        · rw [step_openingMark isOpen mark]
          refine ⟨formed.found, nofun, fun _ _ => ?_⟩
          exact ⟨[], placed, scanner.pending, rfl, mark, nofun, formed.plain isOpen⟩
        · by_cases space : placed.character = ' '
          · rw [step_space isOpen space]
            exact flushed
          · rw [step_other isOpen bracket mark space]
            refine ⟨formed.found, ?_, fun opened isOpened => ?_⟩
            · intro _ other member
              rcases List.mem_cons.mp member with rfl | isOld
              · exact isPlain_of_other bracket mark space noLineFeed
              · exact formed.plain isOpen other isOld
            · change scanner.openQuote = some opened at isOpened
              rw [isOpen] at isOpened
              cases isOpened
  | some opened =>
      -- Below the open text lie its opening mark and the word that is glued to it.
      obtain ⟨content, opening, word, pending, opens, quotable, plain⟩ :=
        formed.quoted opened isOpen
      by_cases mark : placed.character = '"'
      · rw [step_closingMark isOpen mark]
        refine ⟨?_, fun _ _ member => absurd member List.not_mem_nil, nofun⟩
        intro token member
        rcases List.mem_append.mp member with isNew | isOld
        · have made := Option.mem_toList.mp isNew
          rw [collect, pending] at made
          exact formed_of_quoted opens mark quotable plain made
        · exact formed.found token isOld
      · rw [step_quoted isOpen mark]
        refine ⟨formed.found, fun outside => ?_, fun _ _ => ?_⟩
        · change scanner.openQuote = none at outside
          rw [isOpen] at outside
          cases outside
        · refine ⟨placed :: content, opening, word, ?_, opens, ?_, plain⟩
          · rw [collect, pending]
            rfl
          · intro other member
            rcases List.mem_cons.mp member with rfl | isOld
            · simp [isQuotable, mark, noLineFeed]
            · exact quotable other isOld

theorem Formed.run
    {scanner : Scanner}
    {text : List Placed}
    (formed : scanner.Formed)
    (noLineFeed : ∀ placed ∈ text, placed.character ≠ '\n') :
    (text.foldl Scanner.step scanner).Formed := by
  induction text generalizing scanner with
  | nil => exact formed
  | cons placed rest inductionHypothesis =>
      apply inductionHypothesis (formed.step (noLineFeed placed List.mem_cons_self))
      intro other member
      exact noLineFeed other (List.mem_cons_of_mem placed member)

theorem formed_start : start.Formed where
  found := nofun
  plain _ := nofun
  quoted _ := nofun

end Scanner

/-- Text without line feeds is cut into well-formed tokens. -/
theorem formed_of_scan
    {text : List Placed}
    {tokens : List Token}
    (noLineFeed : ∀ placed ∈ text, placed.character ≠ '\n')
    (scanned : scan text = .ok tokens) :
    ∀ token ∈ tokens, token.Formed := by
  have formed := Scanner.formed_start.run noLineFeed
  rw [scan, Scanner.finish] at scanned
  split at scanned
  · cases scanned
  · rename_i outside
    cases scanned
    intro token member
    exact (formed.flush outside).found token (List.mem_reverse.mp member)

end Token

namespace Source

/-- What is read stands in a line of the source, in the column that it says. -/
theorem exists_of_mem_layout
    {source : String}
    {placed : Placed}
    (member : placed ∈ layout source) :
    ∃ text,
      (text, placed.position.line) ∈ (Text.pieces source.toList).zipIdx 1 ∧
      (placed.character, placed.position.column) ∈ text.zipIdx 1 := by
  obtain ⟨trimmed, isLine, inLine⟩ := List.mem_flatten.mp member
  obtain ⟨line, isPlaced, rfl⟩ := List.mem_map.mp isLine
  obtain ⟨⟨text, number⟩, isPiece, rfl⟩ := List.mem_map.mp isPlaced
  obtain ⟨⟨character, column⟩, isNumbered, rfl⟩ :=
    List.mem_map.mp (Text.mem_of_mem_trimBy inLine)
  exact ⟨text, isPiece, isNumbered⟩

/-- No line feed is read. -/
theorem ne_lineFeed_of_mem_layout
    {source : String}
    {placed : Placed}
    (member : placed ∈ layout source) :
    placed.character ≠ '\n' := by
  obtain ⟨text, isPiece, isNumbered⟩ := exists_of_mem_layout member
  have inText : placed.character ∈ text := List.fst_mem_of_mem_zipIdx isNumbered
  have inPieces : text ∈ Text.pieces source.toList := List.fst_mem_of_mem_zipIdx isPiece
  intro isLineFeed
  rw [isLineFeed] at inText
  exact Text.not_mem_of_mem_pieces inPieces inText

end Source

end CellScript
