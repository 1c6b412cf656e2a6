import CellScript.Proofs.Nesting
import CellScript.Proofs.Placement

namespace CellScript

/-!
# The grammar of source text

Whether source text can be read depends on its quotation marks and, of its
brackets, on those outside quotation marks only.  The scanner looks at the marks
first: if the last one opens a text that nothing ends, the brackets are never
looked at.
-/

/-! ## Marks and brackets of a text -/

/-- No bracket is blank. -/
theorem Token.isBlank_of_isBracket
    {character : Char}
    (bracket : isBracket character = true) :
    Text.isBlank character = false := by
  simp only [isBracket, Bool.or_eq_true, decide_eq_true_eq] at bracket
  rcases bracket with ((rfl | rfl) | rfl) | rfl <;> decide

namespace Placed

open Nesting

/-- A quotation mark. -/
def isQuote (placed : Placed) : Bool :=
  placed.character = '"'

/-- A bracket that opens a block goes one level down, and one that closes it goes up. -/
def weight (placed : Placed) : Int :=
  if placed.character = '(' ∨ placed.character = '{' then 1
  else if placed.character = ')' ∨ placed.character = '}' then -1
  else 0

/-- The brackets outside quotation marks, where a text may be open from the beginning. -/
def brackets : (quoted : Bool) → List Placed → List Placed
  | _, [] => []
  | quoted, placed :: rest =>
      if placed.isQuote then
        brackets (!quoted) rest
      else if !quoted && Token.isBracket placed.character then
        placed :: brackets quoted rest
      else
        brackets quoted rest

/-- Blank characters are neither brackets nor quotation marks. -/
theorem brackets_filter
    (quoted : Bool)
    (text : List Placed) :
    brackets quoted (text.filter fun placed => !placed.isBlank) = brackets quoted text := by
  induction text generalizing quoted with
  | nil => rfl
  | cons placed rest inductionHypothesis =>
      by_cases blank : placed.isBlank = true
      · have noQuote : placed.isQuote = false := by
          apply Bool.eq_false_iff.mpr
          intro quote
          rw [isBlank, of_decide_eq_true quote, Text.isBlank_quote] at blank
          exact Bool.false_ne_true blank
        have noBracket : Token.isBracket placed.character = false := by
          apply Bool.eq_false_iff.mpr
          intro bracket
          rw [isBlank, Token.isBlank_of_isBracket bracket] at blank
          exact Bool.false_ne_true blank
        simp [blank, brackets, noQuote, noBracket, inductionHypothesis]
      · simp [blank, brackets, inductionHypothesis]

/-- Leaving out blank characters leaves out no quotation mark. -/
theorem quotes_filter
    (text : List Placed) :
    (text.filter fun placed => !placed.isBlank).filter isQuote = text.filter isQuote := by
  rw [List.filter_filter]
  apply List.filter_congr
  intro placed _
  by_cases quote : placed.character = '"'
  · simp [isQuote, isBlank, quote, Text.isBlank_quote]
  · simp [isQuote, quote]

end Placed

namespace Source

/-- The quotation marks of source text, in order. -/
def quotes (source : String) : List Placed :=
  (Placed.ofText source.toList).filter Placed.isQuote

/-- The brackets of source text that stand outside quotation marks, in order. -/
def brackets (source : String) : List Placed :=
  Placed.brackets false (Placed.ofText source.toList)

theorem length_quotes
    (source : String) :
    (quotes source).length = source.toList.count '"' := by
  have characters : Placed.characters (Placed.ofText source.toList) = source.toList :=
    Placed.characters_behind [] source.toList
  rw [← characters, quotes, Placed.characters, List.count_eq_countP, List.countP_map,
    List.countP_eq_length_filter]
  congr 1

/-- Laying a text out keeps its quotation marks and their places. -/
theorem quotes_layout
    (source : String) :
    (layout source).filter Placed.isQuote = quotes source := by
  rw [quotes, ← Placed.quotes_filter, filter_layout, Placed.quotes_filter]

/-- Laying a text out keeps its brackets and their places. -/
theorem brackets_layout
    (source : String) :
    Placed.brackets false (layout source) = brackets source := by
  rw [brackets, ← Placed.brackets_filter, filter_layout, Placed.brackets_filter]

end Source

/-! ## What the scanner keeps of them -/

namespace Token

/-- The bracket that a token is, with its place. -/
def bracket? (token : Token) : Option Placed :=
  if token.isOpening || token.isClosing then
    some { character := token.lexeme.toList.headD ')', position := token.position }
  else
    none

private theorem lexeme_of_isOpening
    {token : Token}
    (opening : token.isOpening = true) :
    token.lexeme = "(" ∨ token.lexeme = "\x7b" := by
  simp only [isOpening, Bool.and_eq_true, Bool.or_eq_true, decide_eq_true_eq] at opening
  exact opening.2

private theorem lexeme_of_isClosing
    {token : Token}
    (closing : token.isClosing = true) :
    token.lexeme = ")" ∨ token.lexeme = "\x7d" := by
  simp only [isClosing, Bool.and_eq_true, Bool.or_eq_true, decide_eq_true_eq] at closing
  exact closing.2

/-- A token that opens a block is a bracket, with its place and its character. -/
theorem bracket?_of_isOpening
    {token : Token}
    (opening : token.isOpening = true) :
    ∃ placed,
      token.bracket? = some placed ∧
      placed.position = token.position ∧
      String.ofList [placed.character] = token.lexeme := by
  refine ⟨_, by rw [bracket?, opening, Bool.true_or, if_pos rfl], rfl, ?_⟩
  rcases lexeme_of_isOpening opening with round | curly
  · rw [round]
    rfl
  · rw [curly]
    rfl

theorem bracket?_of_isClosing
    {token : Token}
    (closing : token.isClosing = true) :
    token.bracket? =
      some { character := token.lexeme.toList.headD ')', position := token.position } := by
  rw [bracket?, closing, Bool.or_true, if_pos rfl]

/-- A token goes as many levels down as its bracket, and nowhere if it has none. -/
theorem weight_eq_bracket?
    (token : Token) :
    token.weight = (token.bracket?.map Placed.weight).getD 0 := by
  by_cases opening : token.isOpening = true
  · rcases lexeme_of_isOpening opening with round | curly
    · simp [weight_of_isOpening opening, bracket?, opening, round, Placed.weight]
    · simp [weight_of_isOpening opening, bracket?, opening, curly, Placed.weight]
  · rw [Bool.not_eq_true] at opening
    by_cases closing : token.isClosing = true
    · rcases lexeme_of_isClosing closing with round | curly
      · simp [weight_of_isClosing opening closing, bracket?, closing, round, Placed.weight]
      · simp [weight_of_isClosing opening closing, bracket?, closing, curly, Placed.weight]
    · rw [Bool.not_eq_true] at closing
      simp [weight_of_other opening closing, bracket?, opening, closing]

/-- Only tokens of the kind of brackets have one. -/
theorem bracket?_of_kind
    {token : Token}
    (other : token.kind ≠ .bracket) :
    token.bracket? = none := by
  simp [bracket?, isOpening, isClosing, other]

/-- The token made of a bracket has this bracket. -/
theorem bracket?_of_character
    {placed : Placed}
    (isBracket : isBracket placed.character = true) :
    bracket?
        { kind := .bracket
          lexeme := String.ofList [placed.character]
          position := placed.position } =
      some placed := by
  obtain ⟨character, position⟩ := placed
  simp only [Token.isBracket, Bool.or_eq_true, decide_eq_true_eq] at isBracket
  rcases isBracket with ((rfl | rfl) | rfl) | rfl <;>
    simp [bracket?, isOpening, isClosing]

namespace Scanner

/-- The brackets found, the newest first. -/
def brackets (scanner : Scanner) : List Placed :=
  scanner.found.filterMap bracket?

theorem kind_of_token?
    {kind : Kind}
    {collected : List Placed}
    {token : Token}
    (made : token? kind collected = some token) :
    token.kind = kind := by
  simp only [token?] at made
  split at made
  · contradiction
  · contradiction
  · cases made
    rfl

/-- Ending a word or a text adds no bracket. -/
@[simp]
theorem brackets_flush
    (scanner : Scanner)
    {kind : Kind}
    (other : kind ≠ .bracket) :
    (scanner.flush kind).brackets = scanner.brackets := by
  simp only [brackets, flush]
  cases made : token? kind scanner.pending.reverse with
  | none => rfl
  | some token =>
      rw [Option.toList_some, List.singleton_append, List.filterMap_cons,
        bracket?_of_kind (by rw [kind_of_token? made]; exact other)]

/-- A character is a bracket, a quotation mark or neither, but never both. -/
private theorem character_cases
    (character : Char) :
    (isBracket character = true ∧ character ≠ '"') ∨
      (isBracket character = false ∧ character = '"') ∨
      (isBracket character = false ∧ character ≠ '"') := by
  by_cases mark : character = '"'
  · exact .inr (.inl ⟨by rw [mark]; decide, mark⟩)
  · cases bracket : isBracket character
    · exact .inr (.inr ⟨rfl, mark⟩)
    · exact .inl ⟨rfl, mark⟩

/-- A quotation mark opens a text or ends the one that is open. -/
theorem openQuote_step
    (scanner : Scanner)
    (placed : Placed) :
    (scanner.step placed).openQuote =
      if placed.isQuote then
        if scanner.openQuote.isSome then none else some placed.position
      else scanner.openQuote := by
  cases isOpen : scanner.openQuote with
  | none =>
      rcases character_cases placed.character with
        ⟨isBracket, noMark⟩ | ⟨-, mark⟩ | ⟨noBracket, noMark⟩
      · rw [step_bracket isOpen isBracket]
        simp [Placed.isQuote, noMark, bracket, flush, isOpen]
      · rw [step_openingMark isOpen mark]
        simp [Placed.isQuote, mark]
      · by_cases space : placed.character = ' '
        · rw [step_space isOpen space]
          simp [Placed.isQuote, space, flush, isOpen]
        · rw [step_other isOpen noBracket noMark space]
          simp [Placed.isQuote, noMark, collect, isOpen]
  | some opened =>
      by_cases mark : placed.character = '"'
      · rw [step_closingMark isOpen mark]
        simp [Placed.isQuote, mark, flush]
      · rw [step_quoted isOpen mark]
        simp [Placed.isQuote, mark, collect, isOpen]

/-- Scanning a character adds a bracket if it is one outside quotation marks. -/
theorem brackets_step
    (scanner : Scanner)
    (placed : Placed) :
    (scanner.step placed).brackets =
      Placed.brackets scanner.openQuote.isSome [placed] ++ scanner.brackets := by
  cases isOpen : scanner.openQuote with
  | none =>
      rcases character_cases placed.character with
        ⟨isBracket, noMark⟩ | ⟨-, mark⟩ | ⟨noBracket, noMark⟩
      · have flushed : (scanner.flush .word).brackets = scanner.brackets :=
          brackets_flush scanner (by decide)
        rw [step_bracket isOpen isBracket]
        simp only [brackets] at flushed ⊢
        rw [bracket, List.filterMap_cons, bracket?_of_character isBracket, flushed]
        simp [Placed.brackets, Placed.isQuote, noMark, isBracket]
      · rw [step_openingMark isOpen mark]
        simp [Placed.brackets, Placed.isQuote, mark, brackets, collect]
      · have none : Placed.brackets false [placed] = [] := by
          simp [Placed.brackets, Placed.isQuote, noMark, noBracket]
        by_cases space : placed.character = ' '
        · rw [step_space isOpen space, brackets_flush scanner (by decide)]
          simp [none]
        · rw [step_other isOpen noBracket noMark space]
          simp [none, brackets, collect]
  | some opened =>
      have none : Placed.brackets true [placed] = [] := by
        simp [Placed.brackets]
      by_cases mark : placed.character = '"'
      · rw [step_closingMark isOpen mark, brackets_flush _ (by decide)]
        simp [none, brackets, collect]
      · rw [step_quoted isOpen mark]
        simp [none, brackets, collect]

/-- Scanning adds just the brackets that stand outside quotation marks. -/
theorem brackets_run
    (scanner : Scanner)
    (text : List Placed) :
    (text.foldl step scanner).brackets =
      (Placed.brackets scanner.openQuote.isSome text).reverse ++ scanner.brackets := by
  induction text generalizing scanner with
  | nil => rfl
  | cons placed rest inductionHypothesis =>
      rw [List.foldl_cons, inductionHypothesis, brackets_step, openQuote_step]
      cases isOpen : scanner.openQuote with
      | none =>
          by_cases mark : placed.isQuote = true
          · simp [Placed.brackets, mark]
          · by_cases isBracket : isBracket placed.character = true
            · simp [Placed.brackets, mark, isBracket]
            · simp [Placed.brackets, mark, isBracket]
      | some opened =>
          by_cases mark : placed.isQuote = true
          · simp [Placed.brackets, mark]
          · simp [Placed.brackets, mark]

private theorem exists_last_of_odd
    {items : List Placed}
    (odd : items.length % 2 = 1) :
    ∃ last, items.getLast? = some last := by
  have nonempty : items ≠ [] := by
    rintro rfl
    exact absurd odd (by decide)
  exact ⟨items.getLast nonempty, List.getLast?_eq_some_getLast nonempty⟩

/-- A text is open after an odd number of quotation marks, and the last of them opened it. -/
theorem openQuote_run
    (text : List Placed) :
    (text.foldl step start).openQuote =
      if (text.filter Placed.isQuote).length % 2 = 1 then
        (text.filter Placed.isQuote).getLast?.map Placed.position
      else none := by
  -- The last mark counts, so the induction takes characters off the end.
  obtain ⟨reversed, rfl⟩ : ∃ reversed, text = reversed.reverse :=
    ⟨text.reverse, text.reverse_reverse.symm⟩
  induction reversed with
  | nil => rfl
  | cons placed reversed inductionHypothesis =>
      rw [List.reverse_cons]
      generalize reversed.reverse = text at inductionHypothesis ⊢
      rw [List.foldl_append, List.foldl_cons, List.foldl_nil, openQuote_step,
        inductionHypothesis]
      by_cases mark : placed.isQuote = true
      · by_cases odd : (text.filter Placed.isQuote).length % 2 = 1
        · obtain ⟨last, isLast⟩ := exists_last_of_odd odd
          have even : ¬ ((text.filter Placed.isQuote).length + 1) % 2 = 1 := by omega
          simp [mark, odd, isLast, even]
        · have nextOdd : ((text.filter Placed.isQuote).length + 1) % 2 = 1 := by omega
          simp [mark, odd, nextOdd]
      · simp [mark]

end Scanner

open Scanner in
/-- With an odd number of quotation marks the last one is left open. -/
theorem scan_of_odd
    {text : List Placed}
    (odd : (text.filter Placed.isQuote).length % 2 = 1) :
    ∃ last,
      (text.filter Placed.isQuote).getLast? = some last ∧
      scan text = .error (.unterminatedText last.position) := by
  obtain ⟨last, isLast⟩ := exists_last_of_odd odd
  refine ⟨last, isLast, ?_⟩
  simp [scan, finish, openQuote_run, odd, isLast]

open Scanner in
/-- With an even number of quotation marks the text is cut into tokens. -/
theorem scan_of_even
    {text : List Placed}
    (even : (text.filter Placed.isQuote).length % 2 = 0) :
    ∃ tokens,
      scan text = .ok tokens ∧
      tokens.filterMap bracket? = Placed.brackets false text := by
  have closed : (text.foldl step start).openQuote = none := by
    rw [openQuote_run, if_neg (by omega)]
  refine ⟨((text.foldl step start).flush .word).found.reverse, ?_, ?_⟩
  · simp only [scan, finish, closed]
  · have found := brackets_run start text
    rw [← brackets_flush _ (show Kind.word ≠ .bracket by decide)] at found
    rw [List.filterMap_reverse]
    simp only [brackets] at found
    rw [found]
    simp [start]

end Token

/-! ## What the reader makes of source text -/

namespace Node

open Nesting

variable {source : String}

/-- A source with an odd number of quotation marks is refused at the last of them. -/
theorem ofSource_of_odd
    (odd : source.toList.count '"' % 2 = 1) :
    ∃ last,
      (Source.quotes source).getLast? = some last ∧
      ofSource source = .error (.unterminatedText last.position) := by
  rw [← Source.length_quotes, ← Source.quotes_layout] at odd
  obtain ⟨last, isLast, scanned⟩ := Token.scan_of_odd odd
  rw [Source.quotes_layout] at isLast
  refine ⟨last, isLast, ?_⟩
  rw [ofSource, Token.ofSource, scanned]
  rfl

/-- A source with paired quotation marks is built from its tokens. -/
theorem ofSource_of_even
    (even : source.toList.count '"' % 2 = 0) :
    ∃ tokens,
      ofSource source = ofTokens tokens ∧
      tokens.filterMap Token.bracket? = Source.brackets source := by
  rw [← Source.length_quotes, ← Source.quotes_layout] at even
  obtain ⟨tokens, scanned, brackets⟩ := Token.scan_of_even even
  rw [Source.brackets_layout] at brackets
  refine ⟨tokens, ?_, brackets⟩
  rw [ofSource, Token.ofSource, scanned]
  rfl

/-- The first bracket that closes nothing is reported, whatever comes after it. -/
theorem ofSource_of_stray
    (even : source.toList.count '"' % 2 = 0)
    (stray : ¬ Level Placed.weight (Source.brackets source)) :
    ∃ before bracket after,
      Source.brackets source = before ++ bracket :: after ∧
      Level Placed.weight before ∧
      ¬ Level Placed.weight (before ++ [bracket]) ∧
      ofSource source = .error (.structuralMismatch bracket.position bracket.character) := by
  obtain ⟨tokens, built, brackets⟩ := ofSource_of_even even
  rw [← brackets, level_filterMap Token.weight_eq_bracket?] at stray
  obtain ⟨before, token, after, rfl, level, even, up⟩ :=
    exists_first_stray Token.neg_one_le_weight stray
  obtain ⟨opening, closing⟩ := Token.isClosing_of_weight up
  have view := Token.bracket?_of_isClosing closing
  have below : ¬ Level Token.weight (before ++ [token]) := by
    rw [level_append_singleton]
    omega
  rw [← level_filterMap Token.weight_eq_bracket?] at level below
  rw [List.filterMap_append, List.filterMap_cons, view] at brackets
  rw [List.filterMap_append, List.filterMap_cons, view] at below
  refine ⟨before.filterMap Token.bracket?, _, after.filterMap Token.bracket?,
    brackets.symm, level, below, ?_⟩
  rw [built]
  exact ofTokens_of_stray (by rwa [level_filterMap Token.weight_eq_bracket?] at level) even up

/-- If some blocks stay open, the last bracket without a partner is reported. -/
theorem ofSource_of_unclosed
    (even : source.toList.count '"' % 2 = 0)
    (level : Level Placed.weight (Source.brackets source))
    (unclosed : 0 < depth Placed.weight (Source.brackets source)) :
    ∃ before bracket after,
      Source.brackets source = before ++ bracket :: after ∧
      LastUnmatched Placed.weight bracket after ∧
      ofSource source =
        .error (.unclosedBlock bracket.position (String.ofList [bracket.character])) := by
  obtain ⟨tokens, built, brackets⟩ := ofSource_of_even even
  rw [← brackets, level_filterMap Token.weight_eq_bracket?] at level
  rw [← brackets, depth_filterMap Token.weight_eq_bracket?] at unclosed
  obtain ⟨before, token, after, rfl, afterEven, lastUnmatched⟩ :=
    exists_last_unmatched Token.weight_le_one unclosed
  have opening := Token.isOpening_of_weight lastUnmatched.1.1
  obtain ⟨bracket, view, position, lexeme⟩ := Token.bracket?_of_isOpening opening
  rw [List.filterMap_append, List.filterMap_cons, view] at brackets
  refine ⟨before.filterMap Token.bracket?, bracket, after.filterMap Token.bracket?,
    brackets.symm, lastUnmatched.filterMap Token.weight_eq_bracket? view, ?_⟩
  rw [built, position, lexeme]
  exact ofTokens_of_unmatched (level.of_prefix (List.prefix_append before _)) afterEven
    lastUnmatched.1

/-- A source with paired marks and balanced brackets has a tree. -/
theorem ofSource_of_balanced
    (even : source.toList.count '"' % 2 = 0)
    (level : Level Placed.weight (Source.brackets source))
    (balanced : depth Placed.weight (Source.brackets source) = 0) :
    ∃ members, ofSource source = .ok members := by
  obtain ⟨tokens, built, brackets⟩ := ofSource_of_even even
  rw [← brackets, level_filterMap Token.weight_eq_bracket?] at level
  rw [← brackets, depth_filterMap Token.weight_eq_bracket?] at balanced
  rw [built]
  exact ofTokens_of_level level balanced

/--
The reader accepts exactly the texts with an even number of quotation marks whose
brackets outside quotation marks are balanced, and names the place of the first
thing wrong with any other text, the marks before the brackets.
-/
theorem ofSource_decided_by_marks_and_brackets
    (source : String) :
    (source.toList.count '"' % 2 = 1 →
      ∃ last,
        (Source.quotes source).getLast? = some last ∧
        ofSource source = .error (.unterminatedText last.position)) ∧
    (source.toList.count '"' % 2 = 0 →
      ¬ Level Placed.weight (Source.brackets source) →
      ∃ before bracket after,
        Source.brackets source = before ++ bracket :: after ∧
        Level Placed.weight before ∧
        ¬ Level Placed.weight (before ++ [bracket]) ∧
        ofSource source = .error (.structuralMismatch bracket.position bracket.character)) ∧
    (source.toList.count '"' % 2 = 0 →
      Level Placed.weight (Source.brackets source) →
      0 < depth Placed.weight (Source.brackets source) →
      ∃ before bracket after,
        Source.brackets source = before ++ bracket :: after ∧
        LastUnmatched Placed.weight bracket after ∧
        ofSource source =
          .error (.unclosedBlock bracket.position (String.ofList [bracket.character]))) ∧
    (source.toList.count '"' % 2 = 0 →
      Level Placed.weight (Source.brackets source) →
      depth Placed.weight (Source.brackets source) = 0 →
      ∃ members, ofSource source = .ok members) :=
  ⟨ofSource_of_odd, ofSource_of_stray, ofSource_of_unclosed, ofSource_of_balanced⟩

end Node

end CellScript
