import CellScript.Proofs.Lexemes
import Mathlib.Data.List.Induction
import Mathlib.Data.List.TakeWhile

namespace CellScript

/-!
# Line layout

A line break with blank characters on either side of it is read as nothing at all,
wherever in the text it stands.  What is left of a text depends on its trimmed lines
only, and tokens and trees depend on the characters that are left: places are handed
on from the characters to the tokens and to the faults, but decide nothing.
-/

/-! ## Trimmed lines -/

namespace Text

section Trimming

variable {α : Type} {blank : α → Bool} {item : α}

/-- A blank item in front is trimmed away. -/
theorem trimBy_cons_of_blank
    (items : List α)
    (isBlank : blank item = true) :
    trimBy blank (item :: items) = trimBy blank items := by
  rw [trimBy, List.dropWhile_cons_of_pos isBlank, trimBy]

theorem trimBy_concat_of_blank
    (items : List α)
    (isBlank : blank item = true) :
    trimBy blank (items ++ [item]) = trimBy blank items := by
  rw [trimBy, trimBy, List.dropWhile_append]
  split
  · rename_i nothingLeft
    simp [isBlank, List.isEmpty_iff.mp nothingLeft]
  · simp [isBlank]

/-- Only what stands in front of an item that is not blank can be dropped. -/
private theorem dropWhile_append_of_mem
    {front : List α}
    (back : List α)
    (inFront : item ∈ front)
    (bare : blank item = false) :
    (front ++ back).dropWhile blank = front.dropWhile blank ++ back := by
  rw [List.dropWhile_append, if_neg]
  rw [List.isEmpty_iff, List.dropWhile_eq_nil_iff]
  intro allBlank
  rw [allBlank item inFront] at bare
  cases bare

/-- Where no blank item stands on either side, joining and trimming commute. -/
theorem trimBy_append
    {front back : List α}
    (bareFront : ∀ last, front.getLast? = some last → blank last = false)
    (bareBack : ∀ first, back.head? = some first → blank first = false) :
    trimBy blank (front ++ back) = trimBy blank front ++ trimBy blank back := by
  cases isLast : front.getLast? with
  | none => simp [List.getLast?_eq_none_iff.mp isLast]
  | some last =>
      cases isFirst : back.head? with
      | none => simp [List.head?_eq_none_iff.mp isFirst]
      | some first =>
          have inFront := List.mem_of_getLast? isLast
          have inBack := List.mem_reverse.mpr (List.mem_of_head? isFirst)
          have frontKept : trimBy blank front = front.dropWhile blank := by
            rw [trimBy, dropWhile_of_bare, List.reverse_reverse]
            intro other isOther
            rw [List.head?_reverse, getLast?_dropWhile isLast (bareFront last isLast)] at isOther
            cases isOther
            exact bareFront last isLast
          rw [frontKept, trimBy, trimBy,
            dropWhile_append_of_mem back inFront (bareFront last isLast),
            List.reverse_append,
            dropWhile_append_of_mem _ inBack (bareBack first isFirst), List.reverse_append,
            List.reverse_reverse, dropWhile_of_bare bareBack]

end Trimming

/-- The lines of a text, trimmed and joined. -/
def unbroken (text : List Char) : List Char :=
  ((pieces text).map trim).flatten

/-- A text of one line is just trimmed. -/
theorem unbroken_of_line
    {line : List Char}
    (noLineFeed : '\n' ∉ line) :
    unbroken line = trim line := by
  rw [unbroken, pieces_of_line noLineFeed, List.map_singleton, List.flatten_singleton]

/-- At a line feed the text before and the text behind it are trimmed by themselves. -/
theorem unbroken_lineFeed
    (front back : List Char) :
    unbroken (front ++ '\n' :: back) = unbroken front ++ unbroken back := by
  rw [unbroken, pieces, piecesBy_append_separator front back (by decide), List.map_append,
    List.flatten_append]
  rfl

/-- What follows a text is read behind its last line, and the lines before that by themselves. -/
theorem exists_last_line
    (text : List Char) :
    ∃ earlier line,
      '\n' ∉ line ∧
      line <:+ text ∧
      ∀ more, unbroken (text ++ more) = earlier ++ unbroken (line ++ more) := by
  induction text using List.reverseRecOn with
  | nil => exact ⟨[], [], List.not_mem_nil, List.suffix_refl [], fun _ => rfl⟩
  | append_singleton text character inductionHypothesis =>
      by_cases isLineFeed : character = '\n'
      · subst isLineFeed
        refine ⟨unbroken text, [], List.not_mem_nil, List.nil_suffix, fun more => ?_⟩
        rw [List.append_assoc, List.singleton_append, unbroken_lineFeed, List.nil_append]
      · obtain ⟨earlier, line, noLineFeed, isLast, reads⟩ := inductionHypothesis
        refine ⟨earlier, line ++ [character], ?_, ?_, fun more => ?_⟩
        · simp [noLineFeed, Ne.symm isLineFeed]
        · obtain ⟨front, rfl⟩ := isLast
          exact ⟨front, by simp⟩
        · rw [List.append_assoc, reads, List.append_assoc]

/-- What stands before a text is read with its first line, and the other lines by themselves. -/
theorem exists_first_line
    (text : List Char) :
    ∃ line later,
      line <+: text ∧
      ∀ before, '\n' ∉ before → unbroken (before ++ text) = trim (before ++ line) ++ later := by
  induction text with
  | nil =>
      refine ⟨[], [], List.prefix_refl [], fun before noLineFeed => ?_⟩
      rw [List.append_nil, List.append_nil, unbroken_of_line noLineFeed]
  | cons character rest inductionHypothesis =>
      by_cases isLineFeed : character = '\n'
      · subst isLineFeed
        refine ⟨[], unbroken rest, List.nil_prefix, fun before noLineFeed => ?_⟩
        rw [unbroken_lineFeed, unbroken_of_line noLineFeed, List.append_nil]
      · obtain ⟨line, later, isFirst, reads⟩ := inductionHypothesis
        refine ⟨character :: line, later, ?_, fun before noLineFeed => ?_⟩
        · rwa [List.cons_prefix_cons, and_iff_right rfl]
        · have noneYet : '\n' ∉ before ++ [character] := by
            simp [noLineFeed, Ne.symm isLineFeed]
          rw [List.append_cons, reads _ noneYet, ← List.append_cons]

/-- A blank character at the end of a text is not read. -/
theorem unbroken_concat_of_blank
    {character : Char}
    (text : List Char)
    (blank : isBlank character = true) :
    unbroken (text ++ [character]) = unbroken text := by
  by_cases isLineFeed : character = '\n'
  · subst isLineFeed
    rw [unbroken_lineFeed, unbroken_of_line List.not_mem_nil, trim, trimBy_nil, List.append_nil]
  · obtain ⟨earlier, line, noLineFeed, -, reads⟩ := exists_last_line text
    have whole := reads []
    have longer : '\n' ∉ line ++ [character] := by
      simp [noLineFeed, Ne.symm isLineFeed]
    rw [List.append_nil, List.append_nil] at whole
    rw [reads, whole, unbroken_of_line longer, unbroken_of_line noLineFeed, trim, trim,
      trimBy_concat_of_blank line blank]

theorem unbroken_cons_of_blank
    {character : Char}
    (text : List Char)
    (blank : isBlank character = true) :
    unbroken (character :: text) = unbroken text := by
  by_cases isLineFeed : character = '\n'
  · subst isLineFeed
    rw [← List.nil_append ('\n' :: text), unbroken_lineFeed, unbroken_of_line List.not_mem_nil,
      trim, trimBy_nil, List.nil_append]
  · obtain ⟨line, later, -, reads⟩ := exists_first_line text
    have whole := reads [] List.not_mem_nil
    have longer := reads [character] (by simp [Ne.symm isLineFeed])
    rw [List.nil_append, List.nil_append] at whole
    rw [List.singleton_append, List.singleton_append] at longer
    rw [longer, whole, trim, trim, trimBy_cons_of_blank line blank]

/-- Blank characters at the end of a text are not read, line breaks among them. -/
theorem unbroken_append_of_blank
    {blanks : List Char}
    (text : List Char)
    (blank : ∀ character ∈ blanks, isBlank character = true) :
    unbroken (text ++ blanks) = unbroken text := by
  induction blanks generalizing text with
  | nil => rw [List.append_nil]
  | cons character rest inductionHypothesis =>
      rw [List.append_cons,
        inductionHypothesis _ fun other isOther => blank other (.tail _ isOther),
        unbroken_concat_of_blank text (blank character List.mem_cons_self)]

/-- Blank characters in front of a text are not read, line breaks among them. -/
theorem unbroken_of_blank_append
    {blanks : List Char}
    (text : List Char)
    (blank : ∀ character ∈ blanks, isBlank character = true) :
    unbroken (blanks ++ text) = unbroken text := by
  induction blanks with
  | nil => rw [List.nil_append]
  | cons character rest inductionHypothesis =>
      rw [List.cons_append, unbroken_cons_of_blank _ (blank character List.mem_cons_self),
        inductionHypothesis fun other isOther => blank other (.tail _ isOther)]

/-- Where no blank character stands on either side, a text may be read in two parts. -/
theorem unbroken_append
    {front back : List Char}
    (bareFront : ∀ last, front.getLast? = some last → isBlank last = false)
    (bareBack : ∀ first, back.head? = some first → isBlank first = false) :
    unbroken (front ++ back) = unbroken front ++ unbroken back := by
  obtain ⟨earlier, last, noLineFeed, ⟨before, rfl⟩, readsFront⟩ := exists_last_line front
  obtain ⟨first, later, ⟨after, rfl⟩, readsBack⟩ := exists_first_line back
  have wholeFront := readsFront []
  have wholeBack := readsBack [] List.not_mem_nil
  have joined : trim (last ++ first) = trim last ++ trim first := by
    refine trimBy_append (fun character isLast => bareFront character ?_)
      fun character isFirst => bareBack character ?_
    · rw [List.getLast?_append, isLast, Option.some_or]
    · rw [List.head?_append, isFirst, Option.some_or]
  rw [List.append_nil, List.append_nil, unbroken_of_line noLineFeed] at wholeFront
  rw [List.nil_append, List.nil_append] at wholeBack
  rw [readsFront, readsBack last noLineFeed, joined, wholeFront, wholeBack]
  simp only [List.append_assoc]

/-- A line break among blank characters is not read. -/
theorem unbroken_break
    {front back before after : List Char}
    (bareFront : ∀ last, front.getLast? = some last → isBlank last = false)
    (bareBack : ∀ first, back.head? = some first → isBlank first = false)
    (blankBefore : ∀ character ∈ before, isBlank character = true)
    (blankAfter : ∀ character ∈ after, isBlank character = true) :
    unbroken (front ++ before ++ '\n' :: (after ++ back)) = unbroken (front ++ back) := by
  rw [unbroken_lineFeed, unbroken_append_of_blank front blankBefore,
    unbroken_of_blank_append back blankAfter, unbroken_append bareFront bareBack]

end Text

/-! ## Results but for places -/

namespace Fault

/-- The same fault at another place, where it names one. -/
def movedTo (position : Position) : Fault → Fault
  | .malformedSource _ problem => .malformedSource position problem
  | .structuralMismatch _ bracket => .structuralMismatch position bracket
  | other => other

/-- The kind of a fault does not depend on its place. -/
@[simp]
theorem kind_movedTo
    (position : Position)
    (fault : Fault) :
    (fault.movedTo position).kind = fault.kind := by
  cases fault <;> rfl

end Fault

/-- Two results are related values, or one fault that may name another place. -/
inductive SameButPlaces {α : Type} (related : α → α → Prop) :
    (result other : Except Fault α) → Prop where
  | ok
      {value other : α}
      (isRelated : related value other) :
      SameButPlaces related (.ok value) (.ok other)
  | error
      (fault : Fault)
      (position : Position) :
      SameButPlaces related (.error fault) (.error (fault.movedTo position))

namespace SameButPlaces

variable {α β : Type} {related : α → α → Prop} {relatedNext : β → β → Prop}

/-- What goes on in the same way after the same results gives the same results, but for places. -/
theorem bind
    {result other : Except Fault α}
    {next otherNext : α → Except Fault β}
    (first : SameButPlaces related result other)
    (second : ∀ value otherValue,
      related value otherValue → SameButPlaces relatedNext (next value) (otherNext otherValue)) :
    SameButPlaces relatedNext (result >>= next) (other >>= otherNext) := by
  cases first with
  | ok isRelated => exact second _ _ isRelated
  | error fault position => exact .error fault position

end SameButPlaces

/-! ## Tokens -/

namespace Token

/-- A token without its place. -/
def unplaced (token : Token) : Kind × String :=
  (token.kind, token.lexeme)

namespace Scanner

/-- The characters that are collected decide on the token, but for its place. -/
theorem map_unplaced_token?
    (kind : Kind)
    (collected : List Placed) :
    (token? kind collected).map unplaced =
      if Text.trim (Placed.characters collected) = [] then none
      else some (kind, String.ofList (Text.trim (Placed.characters collected))) := by
  cases collected with
  | nil => rfl
  | cons first rest =>
      cases trimmed : Text.trim (Placed.characters (first :: rest)) with
      | nil => simp [token?, trimmed]
      | cons character others => simp [token?, trimmed, unplaced]

/-- Two scanners have found and collected the same, at whatever places. -/
structure Alike (scanner other : Scanner) : Prop where
  found : scanner.found.map unplaced = other.found.map unplaced
  pending : Placed.characters scanner.pending = Placed.characters other.pending
  quoted : scanner.openQuote.isSome = other.openQuote.isSome

namespace Alike

variable {scanner other : Scanner} {placed otherPlaced : Placed}

/-- If one scanner is outside quotation marks, so is the other. -/
theorem openQuote_none
    (alike : scanner.Alike other)
    (outside : scanner.openQuote = none) :
    other.openQuote = none := by
  have quoted := alike.quoted
  rw [outside] at quoted
  simpa using quoted.symm

theorem openQuote_some
    {opened : Position}
    (alike : scanner.Alike other)
    (inside : scanner.openQuote = some opened) :
    ∃ otherOpened, other.openQuote = some otherOpened := by
  have quoted := alike.quoted
  rw [inside] at quoted
  exact Option.isSome_iff_exists.mp quoted.symm

theorem collect
    (alike : scanner.Alike other)
    (same : placed.character = otherPlaced.character) :
    (scanner.collect placed).Alike (other.collect otherPlaced) where
  found := alike.found
  pending := by
    have pending := alike.pending
    simp only [Placed.characters, Scanner.collect, List.map_cons] at pending ⊢
    rw [same, pending]
  quoted := alike.quoted

/-- What scanners have collected alike ends in the same token, but for its place. -/
theorem flush
    (alike : scanner.Alike other)
    (kind : Kind) :
    (scanner.flush kind).Alike (other.flush kind) where
  found := by
    have pending : Placed.characters scanner.pending.reverse =
        Placed.characters other.pending.reverse := by
      have pending := alike.pending
      simp only [Placed.characters, List.map_reverse] at pending ⊢
      rw [pending]
    have made : (token? kind scanner.pending.reverse).map unplaced =
        (token? kind other.pending.reverse).map unplaced := by
      rw [map_unplaced_token?, map_unplaced_token?, pending]
    simp only [Scanner.flush, List.map_append, ← Option.toList_map, alike.found, made]
  pending := rfl
  quoted := alike.quoted

theorem bracket
    (alike : scanner.Alike other)
    (same : placed.character = otherPlaced.character) :
    (scanner.bracket placed).Alike (other.bracket otherPlaced) where
  found := by
    simp only [Scanner.bracket, List.map_cons, alike.found, unplaced, same]
  pending := alike.pending
  quoted := alike.quoted

/-- Both scanners enter quotation marks, each at its own place. -/
theorem openText
    (alike : scanner.Alike other)
    (opened otherOpened : Position) :
    Alike { scanner with openQuote := some opened }
      { other with openQuote := some otherOpened } where
  found := alike.found
  pending := alike.pending
  quoted := rfl

theorem closeText
    (alike : scanner.Alike other) :
    Alike { scanner with openQuote := none } { other with openQuote := none } where
  found := alike.found
  pending := alike.pending
  quoted := rfl

/-- Which way the scanner goes depends on the character and on whether a text is open. -/
theorem step
    (alike : scanner.Alike other)
    (same : placed.character = otherPlaced.character) :
    (scanner.step placed).Alike (other.step otherPlaced) := by
  cases isOpen : scanner.openQuote with
  | none =>
      have otherOutside := alike.openQuote_none isOpen
      by_cases isBracket : isBracket placed.character = true
      · rw [step_bracket isOpen isBracket, step_bracket otherOutside (by rwa [← same])]
        exact (alike.flush .word).bracket same
      · rw [Bool.not_eq_true] at isBracket
        by_cases mark : placed.character = '"'
        · rw [step_openingMark isOpen mark, step_openingMark otherOutside (by rwa [← same])]
          exact (alike.collect same).openText _ _
        · by_cases space : placed.character = ' '
          · rw [step_space isOpen space, step_space otherOutside (by rwa [← same])]
            exact alike.flush .word
          · rw [step_other isOpen isBracket mark space,
              step_other otherOutside (by rwa [← same]) (by rwa [← same]) (by rwa [← same])]
            exact alike.collect same
  | some opened =>
      obtain ⟨otherOpened, otherInside⟩ := alike.openQuote_some isOpen
      by_cases mark : placed.character = '"'
      · rw [step_closingMark isOpen mark, step_closingMark otherInside (by rwa [← same])]
        exact (alike.collect same).closeText.flush .text
      · rw [step_quoted isOpen mark, step_quoted otherInside (by rwa [← same])]
        exact alike.collect same

/-- Scanning the same characters, at whatever places, keeps scanners alike. -/
theorem run
    {text otherText : List Placed}
    (alike : scanner.Alike other)
    (same : Placed.characters text = Placed.characters otherText) :
    (text.foldl Scanner.step scanner).Alike (otherText.foldl Scanner.step other) := by
  induction text generalizing otherText scanner other with
  | nil =>
      obtain rfl := List.map_eq_nil_iff.mp same.symm
      exact alike
  | cons placed rest inductionHypothesis =>
      obtain ⟨otherPlaced, otherRest, rfl, first, others⟩ := List.map_eq_cons_iff.mp same.symm
      rw [List.foldl_cons, List.foldl_cons]
      exact inductionHypothesis (alike.step first.symm) others.symm

/-- The tokens found are the same but for their places, or both texts lack an ending mark. -/
theorem finish
    (alike : scanner.Alike other) :
    (∃ position otherPosition,
      scanner.finish = .error (.unterminatedText position) ∧
      other.finish = .error (.unterminatedText otherPosition)) ∨
    ∃ tokens others,
      scanner.finish = .ok tokens ∧
      other.finish = .ok others ∧
      tokens.map unplaced = others.map unplaced := by
  cases isOpen : scanner.openQuote with
  | none =>
      have found := (alike.flush .word).found
      refine .inr ⟨_, _, by rw [Scanner.finish, isOpen],
        by rw [Scanner.finish, alike.openQuote_none isOpen], ?_⟩
      rw [List.map_reverse, List.map_reverse, found]
  | some opened =>
      obtain ⟨otherOpened, otherInside⟩ := alike.openQuote_some isOpen
      exact .inl ⟨opened, otherOpened, by rw [Scanner.finish, isOpen],
        by rw [Scanner.finish, otherInside]⟩

end Alike

end Scanner

/-- Texts that are read as the same characters have the same tokens, but for their places. -/
theorem ofSource_of_same_joined
    {source other : String}
    (same : Source.joined source = Source.joined other) :
    (∃ position otherPosition,
      ofSource source = .error (.unterminatedText position) ∧
      ofSource other = .error (.unterminatedText otherPosition)) ∨
    ∃ tokens others,
      ofSource source = .ok tokens ∧
      ofSource other = .ok others ∧
      tokens.map unplaced = others.map unplaced := by
  rw [← Source.characters_layout_eq_joined, ← Source.characters_layout_eq_joined] at same
  have start : Scanner.start.Alike Scanner.start := ⟨rfl, rfl, rfl⟩
  exact (start.run same).finish

variable {token other : Token}

/-- Whether a token opens a block does not depend on its place. -/
theorem isOpening_of_unplaced
    (same : token.unplaced = other.unplaced) :
    token.isOpening = other.isOpening := by
  obtain ⟨kind, lexeme⟩ := Prod.mk.inj same
  rw [isOpening, isOpening, kind, lexeme]

theorem isClosing_of_unplaced
    (same : token.unplaced = other.unplaced) :
    token.isClosing = other.isClosing := by
  obtain ⟨kind, lexeme⟩ := Prod.mk.inj same
  rw [isClosing, isClosing, kind, lexeme]

end Token

/-! ## Trees -/

namespace Builder

/-- Two builders have built the same, from tokens at whatever places. -/
structure Alike (builder other : Builder) : Prop where
  members : builder.members = other.members
  enclosing :
    builder.enclosing.map (Prod.map Token.unplaced id) =
      other.enclosing.map (Prod.map Token.unplaced id)

namespace Alike

variable {builder other : Builder} {token otherToken : Token}

/-- Both builders close a block, or both report the bracket, each at its own place. -/
theorem closeBlock
    (alike : builder.Alike other)
    (same : token.unplaced = otherToken.unplaced) :
    SameButPlaces Alike (builder.closeBlock token) (other.closeBlock otherToken) := by
  have lexeme : token.lexeme = otherToken.lexeme := (Prod.mk.inj same).2
  cases isOpen : builder.enclosing with
  | nil =>
      have noneOpen : other.enclosing = [] := by
        have enclosing := alike.enclosing
        rw [isOpen] at enclosing
        exact List.map_eq_nil_iff.mp enclosing.symm
      rw [Builder.closeBlock, Builder.closeBlock, isOpen, noneOpen, lexeme]
      exact .error (.structuralMismatch token.position _) otherToken.position
  | cons innermost rest =>
      have enclosing := alike.enclosing
      rw [isOpen] at enclosing
      obtain ⟨otherInnermost, otherRest, otherOpen, first, others⟩ :=
        List.map_eq_cons_iff.mp enclosing.symm
      have siblings : otherInnermost.2 = innermost.2 := (Prod.mk.inj first).2
      rw [Builder.closeBlock, Builder.closeBlock, isOpen, otherOpen]
      refine .ok ⟨?_, others.symm⟩
      simp only [alike.members, siblings]

/-- The same token, at whatever place, keeps builders alike or makes both fail. -/
theorem step
    (alike : builder.Alike other)
    (same : token.unplaced = otherToken.unplaced) :
    SameButPlaces Alike (builder.step token) (other.step otherToken) := by
  rw [Builder.step, Builder.step, Token.isOpening_of_unplaced same,
    Token.isClosing_of_unplaced same]
  split
  · refine .ok ⟨rfl, ?_⟩
    simp only [openBlock, List.map_cons, alike.enclosing, Prod.map, same, alike.members]
  · split
    · exact alike.closeBlock same
    · have lexeme : token.lexeme = otherToken.lexeme := (Prod.mk.inj same).2
      refine .ok ⟨?_, alike.enclosing⟩
      simp only [add, lexeme, alike.members]

/-- The same tokens, at whatever places, keep builders alike or make both fail. -/
theorem run
    {tokens others : List Token}
    (alike : builder.Alike other)
    (same : tokens.map Token.unplaced = others.map Token.unplaced) :
    SameButPlaces Alike (tokens.foldlM Builder.step builder)
      (others.foldlM Builder.step other) := by
  induction tokens generalizing others builder other with
  | nil =>
      obtain rfl := List.map_eq_nil_iff.mp same.symm
      exact .ok alike
  | cons token rest inductionHypothesis =>
      obtain ⟨otherToken, otherRest, rfl, first, remaining⟩ := List.map_eq_cons_iff.mp same.symm
      rw [List.foldlM_cons, List.foldlM_cons]
      exact (alike.step first.symm).bind fun _ _ next => inductionHypothesis next remaining.symm

/-- Builders that are alike end with the same members, or with blocks open in both. -/
theorem finish
    (alike : builder.Alike other) :
    SameButPlaces (· = ·) builder.finish other.finish := by
  cases isOpen : builder.enclosing with
  | nil =>
      have noneOpen : other.enclosing = [] := by
        have enclosing := alike.enclosing
        rw [isOpen] at enclosing
        exact List.map_eq_nil_iff.mp enclosing.symm
      rw [Builder.finish, Builder.finish, isOpen, noneOpen]
      exact .ok (by rw [alike.members])
  | cons innermost rest =>
      have enclosing := alike.enclosing
      rw [isOpen] at enclosing
      obtain ⟨otherInnermost, otherRest, otherOpen, first, -⟩ :=
        List.map_eq_cons_iff.mp enclosing.symm
      have lexeme : otherInnermost.1.lexeme = innermost.1.lexeme :=
        (Prod.mk.inj (Prod.mk.inj first).1).2
      rw [Builder.finish, Builder.finish, isOpen, otherOpen]
      dsimp only
      rw [lexeme]
      exact .error (.unclosedBlock innermost.1.position _) otherInnermost.1.position

end Alike

end Builder

namespace Node

/-- Tokens that are the same but for their places make the same tree, or the same fault. -/
theorem ofTokens_of_unplaced
    {tokens others : List Token}
    (same : tokens.map Token.unplaced = others.map Token.unplaced) :
    SameButPlaces (· = ·) (ofTokens tokens) (ofTokens others) := by
  have start : Builder.start.Alike Builder.start := ⟨rfl, rfl⟩
  exact (start.run same).bind fun _ _ alike => alike.finish

/-- Texts that are read as the same characters make the same tree, or the same fault. -/
theorem ofSource_of_same_joined
    {source other : String}
    (same : Source.joined source = Source.joined other) :
    SameButPlaces (· = ·) (ofSource source) (ofSource other) := by
  rcases Token.ofSource_of_same_joined same with
    ⟨position, otherPosition, scanned, otherScanned⟩ |
    ⟨tokens, others, scanned, otherScanned, alike⟩
  · rw [ofSource, ofSource, scanned, otherScanned]
    exact .error (.unterminatedText position) otherPosition
  · rw [ofSource, ofSource, scanned, otherScanned]
    exact ofTokens_of_unplaced alike

end Node

namespace Source

/--
A line break that stands among blank characters, be they line breaks themselves, may be
left out with them, whatever it stands in: the tokens have the same kinds and lexemes and
the tree is the same, or the same fault is found at some other place.
-/
theorem break_among_blanks_is_not_read
    {front back before after : String}
    (bareFront : ∀ last ∈ front.toList.getLast?, Text.isBlank last = false)
    (bareBack : ∀ first ∈ back.toList.head?, Text.isBlank first = false)
    (blankBefore : ∀ character ∈ before.toList, Text.isBlank character = true)
    (blankAfter : ∀ character ∈ after.toList, Text.isBlank character = true) :
    let broken := front ++ before ++ "\n" ++ after ++ back
    let whole := front ++ back
    ((∃ position otherPosition,
        Token.ofSource broken = .error (.unterminatedText position) ∧
        Token.ofSource whole = .error (.unterminatedText otherPosition)) ∨
      ∃ tokens others,
        Token.ofSource broken = .ok tokens ∧
        Token.ofSource whole = .ok others ∧
        tokens.map Token.unplaced = others.map Token.unplaced) ∧
    ((∃ members,
        Node.ofSource broken = .ok members ∧
        Node.ofSource whole = .ok members) ∨
      ∃ fault position,
        Node.ofSource broken = .error fault ∧
        Node.ofSource whole = .error (fault.movedTo position) ∧
        (fault.movedTo position).kind = fault.kind) := by
  intro broken whole
  have characters :
      broken.toList = front.toList ++ before.toList ++ '\n' :: (after.toList ++ back.toList) := by
    simp [broken]
  have same : joined broken = joined whole := by
    change Text.unbroken broken.toList = Text.unbroken whole.toList
    rw [characters, Text.unbroken_break bareFront bareBack blankBefore blankAfter,
      String.toList_append]
  refine ⟨Token.ofSource_of_same_joined same, ?_⟩
  have read := Node.ofSource_of_same_joined same
  generalize Node.ofSource broken = ofBroken at read ⊢
  generalize Node.ofSource whole = ofWhole at read ⊢
  cases read with
  | @ok members _ isSame => exact .inl ⟨members, rfl, by rw [isSame]⟩
  | error fault position => exact .inr ⟨fault, position, rfl, rfl, Fault.kind_movedTo _ _⟩

/-- A break in the middle of a quoted text, with a blank line behind it, is not read. -/
theorem break_in_quoted_text_is_not_read :
    let front := "(print \"a"
    let before := " \r"
    let after := "\n\t "
    let back := "b c\")"
    ((∀ last ∈ front.toList.getLast?, Text.isBlank last = false) ∧
      (∀ first ∈ back.toList.head?, Text.isBlank first = false) ∧
      (∀ character ∈ before.toList, Text.isBlank character = true) ∧
      ∀ character ∈ after.toList, Text.isBlank character = true) ∧
    ∃ tokens members,
      Token.ofSource (front ++ before ++ "\n" ++ after ++ back) = .ok tokens ∧
      tokens.map Token.unplaced =
        [(.bracket, "("), (.word, "print"), (.text, "\"ab c\""), (.bracket, ")")] ∧
      Node.ofSource (front ++ before ++ "\n" ++ after ++ back) = .ok members ∧
      Node.ofSource (front ++ back) = .ok members := by
  intro front before after back
  have lastOfFront : front.toList.getLast? = some 'a' := by decide
  have firstOfBack : back.toList.head? = some 'b' := by decide
  have bareFront : ∀ last ∈ front.toList.getLast?, Text.isBlank last = false := by
    rw [lastOfFront]
    rintro last ⟨⟩
    decide
  have bareBack : ∀ first ∈ back.toList.head?, Text.isBlank first = false := by
    rw [firstOfBack]
    rintro first ⟨⟩
    decide
  have blankBefore : ∀ character ∈ before.toList, Text.isBlank character = true :=
    List.all_eq_true.mp (by decide)
  have blankAfter : ∀ character ∈ after.toList, Text.isBlank character = true :=
    List.all_eq_true.mp (by decide)
  have scanned : Token.ofSource (front ++ back) =
      .ok
        [{ kind := .bracket, lexeme := "(", position := { line := 1, column := 1 } },
          { kind := .word, lexeme := "print", position := { line := 1, column := 2 } },
          { kind := .text, lexeme := "\"ab c\"", position := { line := 1, column := 8 } },
          { kind := .bracket, lexeme := ")", position := { line := 1, column := 14 } }] := by
    decide +kernel
  obtain ⟨inTokens, inTrees⟩ :=
    break_among_blanks_is_not_read bareFront bareBack blankBefore blankAfter
  refine ⟨⟨bareFront, bareBack, blankBefore, blankAfter⟩, ?_⟩
  rcases inTokens with ⟨_, _, _, failed⟩ | ⟨tokens, others, ofBroken, ofWhole, same⟩
  · rw [scanned] at failed
    cases failed
  · rw [scanned] at ofWhole
    cases ofWhole
    rcases inTrees with ⟨members, readBroken, readWhole⟩ | ⟨_, _, _, failed, _⟩
    · exact ⟨tokens, members, ofBroken, same, readBroken, readWhole⟩
    · rw [Node.ofSource, scanned] at failed
      cases failed

end Source

end CellScript
