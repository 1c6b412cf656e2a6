import CellScript.Proofs.TokenPlaces

namespace CellScript

/-!
# Texts of tokens

A text whose quotation marks come in pairs is scanned without a loss: the lexemes
have all its characters but blank ones, in order, and between the marks of a quoted
text the blank ones too.
-/

/-! ## Texts -/

namespace Text

/-- A text without its blank characters. -/
def withoutBlanks (text : List Char) : List Char :=
  text.filter fun character => !isBlank character

theorem withoutBlanks_append
    (front back : List Char) :
    withoutBlanks (front ++ back) = withoutBlanks front ++ withoutBlanks back :=
  List.filter_append front back

/-- Leaving out blank characters leaves out no quotation mark. -/
theorem count_withoutBlanks
    (text : List Char) :
    (withoutBlanks text).count '"' = text.count '"' :=
  List.count_filter (by decide)

/-- The second item of a list, the fourth one and so on. -/
def everySecond {α : Type} : List α → List α
  | [] => []
  | [_] => []
  | _ :: second :: rest => second :: everySecond rest

/-- The parts of a text behind its first quotation mark, its third one and so on, up to the next. -/
def quotedParts (text : List Char) : List (List Char) :=
  everySecond (piecesBy (· == '"') text)

/-- Every second item of a list is half of the list, rounded down. -/
theorem length_everySecond
    {α : Type}
    (items : List α) :
    (everySecond items).length = items.length / 2 := by
  fun_induction everySecond items with
  | case1 => simp
  | case2 item => simp
  | case3 first second rest inductionHypothesis =>
      simp only [List.length_cons, inductionHypothesis]
      omega

/-- Marks that come in pairs have a part between the two of each pair. -/
theorem length_quotedParts
    {text : List Char}
    (even : text.count '"' % 2 = 0) :
    2 * (quotedParts text).length = text.count '"' := by
  rw [quotedParts, length_everySecond, length_piecesBy, ← List.count_eq_countP]
  omega

theorem beq_quote_eq_false
    {text : List Char}
    (bare : '"' ∉ text) :
    ∀ character ∈ text, (character == '"') = false := by
  intro character isMember
  rw [beq_eq_false_iff_ne]
  rintro rfl
  exact bare isMember

/-- A text without quotation marks has no quoted part. -/
theorem quotedParts_of_bare
    {text : List Char}
    (bare : '"' ∉ text) :
    quotedParts text = [] := by
  rw [quotedParts, piecesBy_of_bare (beq_quote_eq_false bare), everySecond]

/-- What stands in front of the first mark does not matter. -/
theorem quotedParts_append
    {front : List Char}
    (text : List Char)
    (bare : '"' ∉ front) :
    quotedParts (front ++ text) = quotedParts text := by
  induction front with
  | nil => rfl
  | cons character front inductionHypothesis =>
      rw [List.mem_cons, not_or] at bare
      have isOther : (character == '"') = false := beq_eq_false_iff_ne.mpr (Ne.symm bare.1)
      rw [← inductionHypothesis bare.2, quotedParts, quotedParts, List.cons_append, piecesBy,
        isOther]
      cases piecesBy (· == '"') (front ++ text) with
      | nil => rfl
      | cons piece pieces => cases pieces <;> rfl

/-- A quotation at the front of a text is its first quoted part. -/
theorem quotedParts_quoted
    {content : List Char}
    (text : List Char)
    (bare : '"' ∉ content) :
    quotedParts ('"' :: (content ++ '"' :: text)) = content :: quotedParts text := by
  rw [quotedParts, piecesBy, if_pos (by decide),
    piecesBy_append_cons text (beq_quote_eq_false bare) (by decide), everySecond, quotedParts]

end Text

/-! ## Lexemes -/

namespace Token

open Lexeme Text

namespace Formed

variable {token : Token}

theorem nonempty
    (formed : token.Formed) :
    token.lexeme.toList ≠ [] := by
  rw [Token.Formed] at formed
  split at formed
  · exact formed.nonempty
  · obtain ⟨word, content, parts, -, -⟩ := formed.parts
    rw [parts]
    simp
  · obtain ⟨character, -, lexeme⟩ := formed
    rw [lexeme]
    exact List.cons_ne_nil _ _

theorem trimmed
    (formed : token.Formed) :
    Text.trim token.lexeme.toList = token.lexeme.toList := by
  rw [Token.Formed] at formed
  split at formed
  · exact formed.trimmed
  · exact formed.trimmed
  · obtain ⟨character, bracket, lexeme⟩ := formed
    have bare : Text.isBlank character = false := isBlank_of_isBracket bracket
    rw [lexeme]
    simp [Text.trim, Text.trimBy, bare]

/-- Only a quoted text has marks, and it has two. -/
theorem marks
    (formed : token.Formed) :
    (token.kind ≠ .text ∧ '"' ∉ token.lexeme.toList) ∨
      (token.kind = .text ∧ ∃ word content,
        token.lexeme.toList = word ++ '"' :: (content ++ ['"']) ∧
          '"' ∉ word ∧ '"' ∉ content) := by
  cases kind : token.kind with
  | word =>
      rw [Token.Formed, kind] at formed
      refine .inl ⟨by decide, fun isMember => ?_⟩
      exact ne_of_isPlain (formed.plain '"' isMember) (by decide) rfl
  | text =>
      rw [Token.Formed, kind] at formed
      obtain ⟨word, content, parts, plain, quotable⟩ := formed.parts
      refine .inr ⟨rfl, word, content, parts, fun isMember => ?_, fun isMember => ?_⟩
      · exact ne_of_isPlain (plain '"' isMember) (by decide) rfl
      · exact ne_of_isQuotable (quotable '"' isMember) (by decide) rfl
  | bracket =>
      rw [Token.Formed, kind] at formed
      obtain ⟨character, bracket, lexeme⟩ := formed
      refine .inl ⟨by decide, ?_⟩
      rw [lexeme, List.mem_singleton]
      rintro rfl
      exact absurd bracket (by decide)

/-- The lexeme of a quoted text has one part in marks, and any other lexeme has none. -/
theorem quotedParts_lexeme
    (formed : token.Formed) :
    (token.kind ≠ .text ∧ quotedParts token.lexeme.toList = []) ∨
      (token.kind = .text ∧ ∃ content, quotedParts token.lexeme.toList = [content]) := by
  rcases formed.marks with ⟨other, bare⟩ | ⟨isText, word, content, lexeme, bareWord, bareContent⟩
  · exact .inl ⟨other, quotedParts_of_bare bare⟩
  · refine .inr ⟨isText, content, ?_⟩
    rw [lexeme, Text.quotedParts_append _ bareWord, quotedParts_quoted [] bareContent]
    rfl

/-- The parts of a text that begins with a lexeme are those of the lexeme and those of the rest. -/
theorem quotedParts_append
    (formed : token.Formed)
    (rest : List Char) :
    quotedParts (token.lexeme.toList ++ rest) =
      quotedParts token.lexeme.toList ++ quotedParts rest := by
  rcases formed.marks with ⟨-, bare⟩ | ⟨-, word, content, lexeme, bareWord, bareContent⟩
  · rw [Text.quotedParts_append rest bare, quotedParts_of_bare bare, List.nil_append]
  · have whole : token.lexeme.toList ++ rest = word ++ '"' :: (content ++ '"' :: rest) := by
      rw [lexeme]
      simp
    rw [whole, lexeme, Text.quotedParts_append _ bareWord, Text.quotedParts_append _ bareWord,
      quotedParts_quoted rest bareContent, quotedParts_quoted [] bareContent]
    rfl

end Formed

/-- Quoted texts have their parts in marks one by one. -/
theorem map_quotedParts
    {tokens : List Token}
    (formed : ∀ token ∈ tokens, token.Formed) :
    (tokens.filter (·.kind = .text)).map (fun token => quotedParts token.lexeme.toList) =
      (tokens.flatMap fun token => quotedParts token.lexeme.toList).map ([·]) := by
  induction tokens with
  | nil => rfl
  | cons token rest inductionHypothesis =>
      have restParts := inductionHypothesis fun other isOther => formed other (.tail _ isOther)
      rw [List.flatMap_cons, List.map_append, ← restParts, List.filter_cons]
      rcases (formed token List.mem_cons_self).quotedParts_lexeme with
        ⟨other, parts⟩ | ⟨isText, content, parts⟩
      · simp [other, parts]
      · simp [isText, parts]

end Token

/-! ## Stretches -/

namespace Placed

/-- Blank characters are no quotation marks. -/
theorem quote_not_mem_of_blank
    {blanks : List Placed}
    (blank : ∀ placed ∈ blanks, placed.isBlank = true) :
    '"' ∉ characters blanks := by
  intro isMember
  obtain ⟨placed, isPlaced, isMark⟩ := List.mem_map.mp isMember
  have isBlank := blank placed isPlaced
  rw [Placed.isBlank, isMark, Text.isBlank_quote] at isBlank
  cases isBlank

theorem withoutBlanks_of_blank
    {blanks : List Placed}
    (blank : ∀ placed ∈ blanks, placed.isBlank = true) :
    Text.withoutBlanks (characters blanks) = [] := by
  rw [Text.withoutBlanks, List.filter_eq_nil_iff]
  intro character isMember
  obtain ⟨placed, isPlaced, rfl⟩ := List.mem_map.mp isMember
  simpa [Placed.isBlank] using blank placed isPlaced

end Placed

namespace Token

open Placed

variable {stretches : List Stretch} {text : List Placed}

/-- A stretch reads as its lexeme, between the blanks collected with it. -/
theorem Stretch.characters_append
    (stretch : Stretch)
    (text : List Placed) :
    characters (stretch.text ++ text) =
      characters stretch.lead ++
        (stretch.token.lexeme.toList ++
          (characters stretch.trail ++ characters text)) := by
  rw [stretch.lexeme]
  simp [Stretch.text, characters]

namespace Tiles

/-- The parts in marks of a tiled text are those of its lexemes. -/
theorem quotedParts_eq
    (tiles : Tiles stretches text)
    (formed : ∀ stretch ∈ stretches, stretch.token.Formed) :
    Text.quotedParts (characters text) =
      stretches.flatMap fun stretch => Text.quotedParts stretch.token.lexeme.toList := by
  induction tiles with
  | ends => rfl
  | @gap stretches placed text blank rest inductionHypothesis =>
      have bare : '"' ∉ characters [placed] :=
        quote_not_mem_of_blank (by simpa using blank)
      rw [← inductionHypothesis formed]
      exact Text.quotedParts_append (characters text) bare
  | @stretch stretches text first rest inductionHypothesis =>
      have firstFormed := formed first List.mem_cons_self
      have restFormed : ∀ stretch ∈ stretches, stretch.token.Formed :=
        fun other isOther => formed other (.tail _ isOther)
      rw [first.characters_append,
        Text.quotedParts_append _ (quote_not_mem_of_blank first.leadBlank),
        firstFormed.quotedParts_append,
        Text.quotedParts_append _ (quote_not_mem_of_blank first.trailBlank),
        inductionHypothesis restFormed, List.flatMap_cons]

/-- But for blank characters, a tiled text is made up of its lexemes. -/
theorem withoutBlanks_eq
    (tiles : Tiles stretches text) :
    Text.withoutBlanks (characters text) =
      Text.withoutBlanks (stretches.flatMap fun stretch => stretch.token.lexeme.toList) := by
  induction tiles with
  | ends => rfl
  | @gap stretches placed text blank rest inductionHypothesis =>
      have nothing : Text.withoutBlanks (characters [placed]) = [] :=
        withoutBlanks_of_blank (by simpa using blank)
      have split : characters (placed :: text) = characters [placed] ++ characters text := rfl
      rw [split, Text.withoutBlanks_append, nothing, List.nil_append, inductionHypothesis]
  | @stretch stretches text first rest inductionHypothesis =>
      simp only [first.characters_append, Text.withoutBlanks_append, List.flatMap_cons,
        withoutBlanks_of_blank first.leadBlank, withoutBlanks_of_blank first.trailBlank,
        inductionHypothesis, List.nil_append]

/-- The places of tokens are those of characters of the text, in order. -/
theorem positions_sublist
    (tiles : Tiles stretches text) :
    List.Sublist (stretches.map fun stretch => stretch.token.position)
      (text.map Placed.position) := by
  induction tiles with
  | ends => exact .refl []
  | gap blank rest inductionHypothesis => exact inductionHypothesis.cons _
  | stretch first rest inductionHypothesis =>
      rw [List.map_cons, List.map_append, ← List.singleton_append]
      refine .append ?_ inductionHypothesis
      rw [List.singleton_sublist, first.position]
      exact List.mem_map_of_mem first.headD_mem_text

end Tiles

end Token

/-! ## Order of places -/

/-- A place comes before another one that is further right on its line or on a later line. -/
def Position.Before (earlier later : Position) : Prop :=
  earlier.line < later.line ∨ earlier.line = later.line ∧ earlier.column < later.column

namespace Source

private theorem pairwise_zipIdx
    {α : Type}
    (items : List α)
    (start : Nat) :
    (items.zipIdx start).Pairwise fun earlier later => earlier.2 < later.2 := by
  have counted := List.pairwise_lt_range' (s := start) (n := items.length)
  rwa [← List.zipIdx_map_snd start items, List.pairwise_map] at counted

/-- The characters of a line stand in the order of their columns. -/
theorem pairwise_ofLine
    (line : Nat)
    (text : List Char) :
    (Placed.ofLine line text).Pairwise fun earlier later =>
      earlier.position.Before later.position := by
  rw [Placed.ofLine, List.pairwise_map]
  exact (pairwise_zipIdx text 1).imp fun columns => .inr ⟨rfl, columns⟩

/-- All characters of a line stand on this line. -/
theorem line_of_mem_ofLine
    {line : Nat}
    {text : List Char}
    {placed : Placed}
    (isMember : placed ∈ Placed.ofLine line text) :
    placed.position.line = line := by
  obtain ⟨numbered, -, rfl⟩ := List.mem_map.mp isMember
  rfl

/-- Characters are read in the order of their places. -/
theorem pairwise_layout
    (source : String) :
    (layout source).Pairwise fun earlier later =>
      earlier.position.Before later.position := by
  rw [layout, List.pairwise_flatten]
  constructor
  · intro trimmed isLine
    obtain ⟨line, isPlaced, rfl⟩ := List.mem_map.mp isLine
    obtain ⟨⟨text, number⟩, -, rfl⟩ := List.mem_map.mp isPlaced
    exact (pairwise_ofLine number text).sublist (Text.trimBy_sublist _ _)
  · rw [placedLines, List.map_map, List.pairwise_map]
    refine (pairwise_zipIdx _ 1).imp fun lines earlier isEarlier later isLater => .inl ?_
    rw [line_of_mem_ofLine (Text.mem_of_mem_trimBy isEarlier),
      line_of_mem_ofLine (Text.mem_of_mem_trimBy isLater)]
    exact lines

/-- Reading line by line loses blank characters only. -/
theorem withoutBlanks_joined
    (source : String) :
    Text.withoutBlanks (joined source) = Text.withoutBlanks source.toList := by
  have kept := congrArg Placed.characters (filter_layout source)
  have placed (text : List Placed) :
      Text.withoutBlanks (Placed.characters text) =
        Placed.characters (text.filter fun placed => !placed.isBlank) :=
    List.filter_map
  have whole : Placed.characters (Placed.ofText source.toList) = source.toList :=
    Placed.characters_behind [] source.toList
  rw [← characters_layout_eq_joined, placed, kept, ← placed, whole]

/-- Joining the lines of a source loses no quotation mark. -/
theorem count_joined
    (source : String) :
    (joined source).count '"' = source.toList.count '"' := by
  rw [← Text.count_withoutBlanks, withoutBlanks_joined, Text.count_withoutBlanks]

end Source

namespace Token

/--
Scanning loses, invents and reorders nothing where the quotation marks come in pairs.
Every lexeme has characters, no blank ones at its ends, and the form that its kind
says.  There is one quoted text for each pair of marks, and between its marks stands
what stands between that pair in the trimmed lines, joined.  But for blank characters
the lexemes make up the source, and tokens come in the order of their places.
-/
theorem ofSource_keeps_texts
    {source : String}
    (paired : source.toList.count '"' % 2 = 0) :
    ∃ tokens,
      ofSource source = .ok tokens ∧
      (∀ token ∈ tokens,
        token.lexeme.toList ≠ [] ∧
          Text.trim token.lexeme.toList = token.lexeme.toList ∧
          token.Formed) ∧
      2 * (tokens.filter (·.kind = .text)).length = source.toList.count '"' ∧
      (tokens.filter (·.kind = .text)).map (fun token => Text.quotedParts token.lexeme.toList) =
        (Text.quotedParts (Source.joined source)).map ([·]) ∧
      Text.withoutBlanks (tokens.flatMap fun token => token.lexeme.toList) =
        Text.withoutBlanks source.toList ∧
      tokens.Pairwise fun earlier later => earlier.position.Before later.position := by
  have marks : ((Source.layout source).filter Placed.isQuote).length % 2 = 0 := by
    rw [Source.quotes_layout, Source.length_quotes, paired]
  obtain ⟨tokens, scanned, -⟩ := scan_of_even marks
  have noLineFeed : ∀ placed ∈ Source.layout source, placed.character ≠ '\n' :=
    fun _ => Source.ne_lineFeed_of_mem_layout
  obtain ⟨stretches, tiles, rfl⟩ := tiles_of_scan noLineFeed scanned
  have formed := formed_of_scan noLineFeed scanned
  have parts :
      ((stretches.map Stretch.token).filter (·.kind = .text)).map
          (fun token => Text.quotedParts token.lexeme.toList) =
        (Text.quotedParts (Source.joined source)).map ([·]) := by
    rw [map_quotedParts formed, List.flatMap_map, ← Source.characters_layout_eq_joined,
      tiles.quotedParts_eq fun stretch isMember => formed _ (List.mem_map_of_mem isMember)]
  refine ⟨stretches.map Stretch.token, scanned, fun token isMember => ?_, ?_, parts, ?_, ?_⟩
  · have form := formed token isMember
    exact ⟨form.nonempty, form.trimmed, form⟩
  · have lengths := congrArg List.length parts
    rw [List.length_map, List.length_map] at lengths
    rw [lengths, Text.length_quotedParts (by rw [Source.count_joined, paired]),
      Source.count_joined]
  · rw [List.flatMap_map, ← tiles.withoutBlanks_eq, Source.characters_layout_eq_joined,
      Source.withoutBlanks_joined]
  · have inOrder := Source.pairwise_layout source
    rw [← List.pairwise_map (f := Placed.position)] at inOrder
    have tokensInOrder := inOrder.sublist tiles.positions_sublist
    rw [List.pairwise_map] at tokensInOrder ⊢
    exact tokensInOrder

/-- A text that goes over two lines is one text, and loses the blanks at the line break only. -/
theorem text_over_two_lines_is_kept :
    ∃ tokens,
      ofSource "(f\"a  \n\tb \x7b\" \"\")" = .ok tokens ∧
      (tokens.filter (·.kind = .text)).length = 2 ∧
      (tokens.filter (·.kind = .text)).map (fun token => Text.quotedParts token.lexeme.toList) =
        [["ab \x7b".toList], [[]]] ∧
      tokens.Pairwise fun earlier later => earlier.position.Before later.position := by
  have marks : "(f\"a  \n\tb \x7b\" \"\")".toList.count '"' = 4 := by decide +kernel
  obtain ⟨tokens, scanned, -, count, parts, -, inOrder⟩ := ofSource_keeps_texts (by rw [marks])
  have texts :
      Text.quotedParts (Source.joined "(f\"a  \n\tb \x7b\" \"\")") = ["ab \x7b".toList, []] := by
    decide +kernel
  rw [texts] at parts
  exact ⟨tokens, scanned, by omega, parts, inOrder⟩

end Token

end CellScript
