import CellScript.Proofs.Lexemes

namespace CellScript

/-!
# Readable trees

A leaf is readable when its own characters are a lexeme that stands for it.  The
reader makes only trees all of whose leaves are readable: a lexeme that reads as
a number is given up for the decimal form of that number, and every other leaf
keeps the characters of its lexeme.
-/

/-! ## Leaves -/

namespace Decimal

/-- A decimal text is made of digits and possibly a minus sign. -/
theorem mem_ofInt
    {value : Int}
    {character : Char}
    (member : character ∈ ofInt value) :
    character = '-' ∨ character.isDigit = true := by
  have digit {number : Nat} (isDigit : character ∈ ofNat number) : character.isDigit = true :=
    Nat.isDigit_of_mem_toDigits (by decide) (by decide) isDigit
  cases value with
  | ofNat number => exact .inr (digit member)
  | negSucc number =>
      rcases List.mem_cons.mp member with minus | isDigit
      · exact .inl minus
      · exact .inr (digit isDigit)

theorem ofInt_ne_nil
    (value : Int) :
    ofInt value ≠ [] := by
  cases value with
  | ofNat number => exact Nat.toDigits_ne_nil
  | negSucc number => exact List.cons_ne_nil _ _

end Decimal

namespace Lexeme

/-- Signs and digits are neither blank nor do they end a word. -/
theorem of_sign_or_digit
    {character : Char}
    (signOrDigit : character = '-' ∨ character.isDigit = true) :
    isPlain character = true ∧ Text.isBlank character = false := by
  rcases signOrDigit with rfl | digit
  · decide
  · have inRange : 48 ≤ character.toNat ∧ character.toNat ≤ 57 := by
      simp only [Char.isDigit, Bool.and_eq_true, decide_eq_true_eq] at digit
      exact digit
    have differs {other : Char} (outside : other.toNat < 48 ∨ 57 < other.toNat) :
        character ≠ other := by
      rintro rfl
      omega
    constructor
    · apply isPlain_of_other
      · simp [Token.isBracket, differs]
      · exact differs (by decide)
      · exact differs (by decide)
      · exact differs (by decide)
    · simp [Text.isBlank, Text.blankRanges]
      omega

/-- The text of an integer is a word. -/
theorem isWord_ofInt
    (value : Int) :
    IsWord (Decimal.ofInt value) where
  nonempty := Decimal.ofInt_ne_nil value
  trimmed := by
    apply Text.trimBy_of_bare
    · intro first isFirst
      exact (of_sign_or_digit (Decimal.mem_ofInt (List.mem_of_head? isFirst))).2
    · intro last isLast
      exact (of_sign_or_digit (Decimal.mem_ofInt (List.mem_of_getLast? isLast))).2
  plain _ member := (of_sign_or_digit (Decimal.mem_ofInt member)).1

end Lexeme

namespace Leaf

open Lexeme

/-- A leaf has a form that a lexeme can have, and that lexeme stands for the leaf. -/
structure Readable (leaf : Leaf) : Prop where
  form : IsWord leaf.characters ∨ IsQuotation leaf.characters
  same : ofLexeme (String.ofList leaf.characters) = leaf

/-- A lexeme in quotation marks is the text between them. -/
theorem ofLexeme_quotation
    (content : List Char) :
    ofLexeme (String.ofList ('"' :: (content ++ ['"']))) = .text (String.ofList content) := by
  rw [ofLexeme, String.toList_ofList]
  simp

/-- A lexeme that does not begin with a quotation mark is a number or a name. -/
theorem ofLexeme_of_unquoted
    {characters : List Char}
    (unquoted : ∀ rest, characters ≠ '"' :: rest) :
    ofLexeme (String.ofList characters) =
      match Decimal.readInt64? characters with
      | some value => .number value
      | none => .word (String.ofList characters) := by
  rw [ofLexeme, String.toList_ofList]
  split
  · rename_i rest
    exact absurd rfl (unquoted rest)
  · rfl

/-- A text is read back, and so is a word that is no number. -/
theorem readable_of_characters
    {lexeme : List Char}
    (form : IsWord lexeme ∨ IsQuotation lexeme)
    (same : (ofLexeme (String.ofList lexeme)).characters = lexeme) :
    (ofLexeme (String.ofList lexeme)).Readable where
  form := by rwa [same]
  same := by rw [same]

/-- A name is readable if its lexeme can be scanned and is not taken for a number. -/
theorem readable_word
    {name : String}
    (isWord : IsWord name.toList)
    (same : ofLexeme name = .word name) :
    (Leaf.word name).Readable where
  form := .inl isWord
  same := by rwa [characters, String.ofList_toList]

/-- Every number is readable, since its decimal text is read as the same number. -/
theorem readable_number
    (value : Int64) :
    (Leaf.number value).Readable where
  form := .inl (isWord_ofInt value.toInt)
  same := by
    have word := isWord_ofInt value.toInt
    rw [characters, ofLexeme_of_unquoted, Decimal.readInt64?_ofInt]
    intro rest quoted
    have plain := word.plain '"' (by rw [quoted]; exact List.mem_cons_self)
    exact ne_of_isPlain plain (by decide) rfl

/-- The leaf that a lexeme stands for is read back from its own characters. -/
theorem readable_ofLexeme
    {lexeme : List Char}
    (form : IsWord lexeme ∨ IsQuotation lexeme) :
    (ofLexeme (String.ofList lexeme)).Readable := by
  -- A mark at the very front makes a text; a word glued to the front keeps the lexeme a word.
  by_cases quoted : ∃ rest, lexeme = '"' :: rest
  · obtain ⟨rest, startsQuoted⟩ := quoted
    rcases form with word | quotation
    · have plain := word.plain '"' (by rw [startsQuoted]; exact List.mem_cons_self)
      exact absurd rfl (ne_of_isPlain plain (by decide))
    · obtain ⟨word, content, parts, plain, -⟩ := quotation.parts
      cases word with
      | nil =>
          subst parts
          apply readable_of_characters (.inr quotation)
          rw [List.nil_append, ofLexeme_quotation, characters, String.toList_ofList]
      | cons first word =>
          rw [startsQuoted] at parts
          obtain ⟨rfl, -⟩ := List.cons.inj parts
          exact absurd rfl (ne_of_isPlain (plain '"' List.mem_cons_self) (by decide))
  · have unquoted : ∀ rest, lexeme ≠ '"' :: rest := fun rest startsQuoted =>
      quoted ⟨rest, startsQuoted⟩
    have leaf := ofLexeme_of_unquoted unquoted
    cases number : Decimal.readInt64? lexeme with
    | some value =>
        rw [number] at leaf
        rw [leaf]
        exact readable_number value
    | none =>
        rw [number] at leaf
        apply readable_of_characters form
        rw [leaf, characters, String.toList_ofList]

example : ofLexeme "007" = .number 7 := by rfl

end Leaf

/-! ## Nodes -/

namespace Node

/-- All leaves of a node can be read back. -/
inductive Readable : Node → Prop
  | leaf
      {value : Leaf}
      (readable : value.Readable) :
      Readable (.leaf value)
  | block
      {members : List Node}
      (readable : ∀ member ∈ members, Readable member) :
      Readable (.block members)

theorem readable_leaf_iff
    {value : Leaf} :
    Readable (.leaf value) ↔ value.Readable := by
  constructor
  · rintro ⟨readable⟩
    exact readable
  · exact .leaf

theorem Readable.members
    {members : List Node}
    (readable : Readable (.block members)) :
    ∀ member ∈ members, Readable member := by
  cases readable with
  | block readable => exact readable

theorem readable_block_iff
    {members : List Node} :
    Readable (.block members) ↔ ∀ member ∈ members, member.Readable :=
  ⟨Readable.members, .block⟩

/-- All nodes below a readable one are readable. -/
theorem Readable.of_mem_preorder
    {node below : Node}
    (readable : Readable node)
    (isBelow : below ∈ preorder node) :
    Readable below := by
  induction readable with
  | leaf readable =>
      rw [preorder, List.mem_singleton] at isBelow
      rw [isBelow]
      exact .leaf readable
  | block readable inductionHypothesis =>
      rw [preorder, List.mem_cons] at isBelow
      rcases isBelow with rfl | isBelow
      · exact .block readable
      · obtain ⟨member, isMember, isBelow⟩ := mem_preorderAll.mp isBelow
        exact inductionHypothesis member isMember isBelow

end Node

/-! ## What is built from scanned tokens -/

namespace Token.Formed

/-- A well-formed token that is a bracket opens or closes a block. -/
theorem isStructural_of_bracket
    {token : Token}
    (formed : token.Formed)
    (bracket : token.kind = .bracket) :
    token.isOpening = true ∨ token.isClosing = true := by
  rw [Token.Formed, bracket] at formed
  obtain ⟨character, isBracket, lexeme⟩ := formed
  have same : token.lexeme = String.ofList [character] := by
    rw [← lexeme, String.ofList_toList]
  simp only [Token.isBracket, Bool.or_eq_true, decide_eq_true_eq] at isBracket
  rcases isBracket with ((rfl | rfl) | rfl) | rfl <;>
    simp [isOpening, isClosing, bracket, same]

/-- Any other well-formed token makes a readable leaf. -/
theorem readable
    {token : Token}
    (formed : token.Formed)
    (opening : token.isOpening = false)
    (closing : token.isClosing = false) :
    (Leaf.ofLexeme token.lexeme).Readable := by
  have form : Lexeme.IsWord token.lexeme.toList ∨ Lexeme.IsQuotation token.lexeme.toList := by
    cases kind : token.kind with
    | word =>
        rw [Token.Formed, kind] at formed
        exact .inl formed
    | text =>
        rw [Token.Formed, kind] at formed
        exact .inr formed
    | bracket =>
        rcases formed.isStructural_of_bracket kind with isOpening | isClosing
        · rw [opening] at isOpening
          cases isOpening
        · rw [closing] at isClosing
          cases isClosing
  rw [← String.ofList_toList (s := token.lexeme)]
  exact Leaf.readable_ofLexeme form

end Token.Formed

namespace Builder

/-- Everything built so far can be read back. -/
structure Readable (builder : Builder) : Prop where
  members : ∀ node ∈ builder.members, node.Readable
  siblings : ∀ bracket nodes, (bracket, nodes) ∈ builder.enclosing → ∀ node ∈ nodes, node.Readable

theorem readable_start : start.Readable where
  members _ member := absurd member List.not_mem_nil
  siblings _ _ member := absurd member List.not_mem_nil

/-- A builder with readable nodes only still has them after one more well-formed token. -/
theorem Readable.step
    {builder next : Builder}
    {token : Token}
    (readable : builder.Readable)
    (formed : token.Formed)
    (stepped : builder.step token = .ok next) :
    next.Readable := by
  rw [Builder.step] at stepped
  split at stepped
  · cases stepped
    refine ⟨fun _ member => absurd member List.not_mem_nil, fun bracket nodes member => ?_⟩
    rcases List.mem_cons.mp member with same | isOld
    · cases same
      exact readable.members
    · exact readable.siblings bracket nodes isOld
  · rename_i notOpening
    split at stepped
    · rw [closeBlock] at stepped
      split at stepped
      · cases stepped
      · rename_i bracket siblings enclosing split
        cases stepped
        have old := readable.siblings
        rw [split] at old
        refine ⟨fun node member => ?_, fun bracket nodes member => ?_⟩
        · rcases List.mem_cons.mp member with rfl | isSibling
          · exact .block fun inner isInner =>
              readable.members inner (List.mem_reverse.mp isInner)
          · exact old bracket siblings List.mem_cons_self node isSibling
        · exact old bracket nodes (List.mem_cons_of_mem _ member)
    · rename_i notClosing
      cases stepped
      refine ⟨fun node member => ?_, readable.siblings⟩
      rcases List.mem_cons.mp member with rfl | isOld
      · exact .leaf (formed.readable (by simpa using notOpening) (by simpa using notClosing))
      · exact readable.members node isOld

/-- Well-formed tokens build readable nodes only. -/
theorem Readable.run
    {builder next : Builder}
    {tokens : List Token}
    (readable : builder.Readable)
    (formed : ∀ token ∈ tokens, token.Formed)
    (ran : tokens.foldlM Builder.step builder = .ok next) :
    next.Readable := by
  induction tokens generalizing builder with
  | nil =>
      cases ran
      exact readable
  | cons token rest inductionHypothesis =>
      rw [List.foldlM_cons] at ran
      cases stepped : builder.step token with
      | error fault =>
          rw [stepped] at ran
          cases ran
      | ok middle =>
          rw [stepped] at ran
          apply inductionHypothesis (readable.step (formed token List.mem_cons_self) stepped)
          · intro other member
            exact formed other (List.mem_cons_of_mem token member)
          · exact ran

end Builder

namespace Node

/-- Whatever is read from source text can be read back. -/
theorem readable_of_ofSource
    {source : String}
    {members : List Node}
    (read : ofSource source = .ok members) :
    Readable (.block members) := by
  rw [ofSource] at read
  cases scanned : Token.ofSource source with
  | error fault =>
      rw [scanned] at read
      cases read
  | ok tokens =>
      rw [scanned] at read
      have formed := Token.formed_of_scan (fun _ => Source.ne_lineFeed_of_mem_layout) scanned
      change ofTokens tokens = .ok members at read
      rw [ofTokens] at read
      cases ran : tokens.foldlM Builder.step Builder.start with
      | error fault =>
          rw [ran] at read
          cases read
      | ok builder =>
          rw [ran] at read
          have built := Builder.readable_start.run formed ran
          change builder.finish = .ok members at read
          rw [Builder.finish] at read
          split at read
          · cases read
            exact .block fun node member => built.members node (List.mem_reverse.mp member)
          · cases read

end Node

end CellScript
