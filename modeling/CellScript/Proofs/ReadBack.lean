import CellScript.Proofs.Readable

namespace CellScript

/-!
# Reading back

The source form of a readable tree is scanned piece by piece: a leaf is one
token, a space ends whatever was collected before it, and brackets stand for
themselves.  A piece is scanned from between two tokens to between two tokens, so
pieces can be put together, and the builder makes of the tokens of a node that
node.
-/

/-! ## Scanning pieces -/

namespace Token

open Lexeme

/-- The bracket that opens a displayed block. -/
def opening (position : Position) : Token :=
  { kind := .bracket, lexeme := "(", position }

/-- The bracket that closes a displayed block. -/
def closing (position : Position) : Token :=
  { kind := .bracket, lexeme := ")", position }

namespace Scanner

/-- The state between two tokens, after the newest of some tokens found. -/
def between (found : List Token) : Scanner :=
  { found, pending := [], openQuote := none }

/-- A piece of text adds tokens when it is scanned from between two tokens and then ended. -/
def Scans (text : List Placed) (tokens : List Token) : Prop :=
  ∀ found,
    (text.foldl step (between found)).flush .word = between (tokens.reverse ++ found)

/-- Characters that are only collected pile up in front of those collected before. -/
theorem run_collecting
    {scanner : Scanner}
    {text : List Placed}
    (collects : ∀ placed ∈ text, ∀ other : Scanner,
      other.openQuote = scanner.openQuote → other.step placed = other.collect placed) :
    text.foldl step scanner = { scanner with pending := text.reverse ++ scanner.pending } := by
  induction text generalizing scanner with
  | nil => rfl
  | cons placed rest inductionHypothesis =>
      have collected : scanner.step placed = scanner.collect placed :=
        collects placed List.mem_cons_self scanner rfl
      have restCollects :
          rest.foldl step (scanner.collect placed) =
            { scanner.collect placed with
              pending := rest.reverse ++ (scanner.collect placed).pending } := by
        apply inductionHypothesis
        intro other member
        exact collects other (List.mem_cons_of_mem placed member)
      rw [List.foldl_cons, collected, restCollects]
      simp [collect]

/-- Plain characters are collected outside quotation marks. -/
theorem run_plain
    {scanner : Scanner}
    {text : List Placed}
    (outside : scanner.openQuote = none)
    (plain : ∀ placed ∈ text, isPlain placed.character = true) :
    text.foldl step scanner = { scanner with pending := text.reverse ++ scanner.pending } := by
  apply run_collecting
  intro placed member other same
  have isPlain := plain placed member
  exact step_other (same.trans outside) (noBracket_of_isPlain isPlain)
    (ne_of_isPlain isPlain (by decide)) (ne_of_isPlain isPlain (by decide))

theorem run_quotable
    {scanner : Scanner}
    {text : List Placed}
    {opened : Position}
    (inside : scanner.openQuote = some opened)
    (quotable : ∀ placed ∈ text, isQuotable placed.character = true) :
    text.foldl step scanner = { scanner with pending := text.reverse ++ scanner.pending } := by
  apply run_collecting
  intro placed member other same
  exact step_quoted (same.trans inside) (ne_of_isQuotable (quotable placed member) (by decide))

/-- No characters make no token. -/
@[simp]
theorem token?_nil
    (kind : Kind) :
    token? kind [] = none := rfl

/-- Trimmed characters, if there are any, make the token with exactly these characters. -/
theorem exists_token?
    (kind : Kind)
    {collected : List Placed}
    (nonempty : collected ≠ [])
    (trimmed : Text.trim (Placed.characters collected) = Placed.characters collected) :
    ∃ token,
      token? kind collected = some token ∧
      token.lexeme = String.ofList (Placed.characters collected) := by
  cases collected with
  | nil => exact absurd rfl nonempty
  | cons first rest =>
      have shape :
          Placed.characters (first :: rest) = first.character :: Placed.characters rest := rfl
      rw [shape] at trimmed
      refine ⟨{ kind, lexeme := String.ofList (Placed.characters (first :: rest))
                position := first.position }, ?_, rfl⟩
      simp only [token?, shape, trimmed]

theorem Scans.nil : Scans [] [] :=
  fun _ => rfl

/-- A space ends a piece and separates it from the next one. -/
theorem Scans.spaced
    {first rest : List Placed}
    {space : Placed}
    {tokens more : List Token}
    (isSpace : space.character = ' ')
    (firstScans : Scans first tokens)
    (restScans : Scans rest more) :
    Scans (first ++ space :: rest) (tokens ++ more) := by
  intro found
  have ended := firstScans found
  have outside : (first.foldl step (between found)).openQuote = none :=
    congrArg Scanner.openQuote ended
  rw [List.foldl_append, List.foldl_cons, step_space outside isSpace, ended, restScans]
  simp

/-- Brackets around a piece are tokens of their own. -/
theorem Scans.bracketed
    {inner : List Placed}
    {opening closing : Placed}
    {tokens : List Token}
    (opens : opening.character = '(')
    (closes : closing.character = ')')
    (innerScans : Scans inner tokens) :
    Scans (opening :: (inner ++ [closing]))
      (.opening opening.position :: (tokens ++ [.closing closing.position])) := by
  intro found
  have opened :
      (between found).step opening = between (.opening opening.position :: found) := by
    rw [step_bracket rfl (by rw [opens]; rfl), bracket, opens]
    rfl
  have ended := innerScans (.opening opening.position :: found)
  have outside :
      (inner.foldl step (between (.opening opening.position :: found))).openQuote = none :=
    congrArg Scanner.openQuote ended
  rw [List.foldl_cons, opened, List.foldl_append, List.foldl_cons, List.foldl_nil,
    step_bracket outside (by rw [closes]; rfl), ended, bracket, closes]
  simp [between, flush, Token.closing]

/-- A word is scanned as one token with just its characters. -/
theorem Scans.word
    {text : List Placed}
    (word : IsWord (Placed.characters text)) :
    ∃ token,
      Scans text [token] ∧
      token.kind ≠ .bracket ∧
      token.lexeme = String.ofList (Placed.characters text) := by
  have nonempty : text ≠ [] := by
    rintro rfl
    exact word.nonempty rfl
  obtain ⟨token, made, lexeme⟩ := exists_token? .word nonempty word.trimmed
  refine ⟨token, fun found => ?_, by rw [kind_of_token? made]; decide, lexeme⟩
  have plain : ∀ placed ∈ text, isPlain placed.character = true :=
    fun placed member => word.plain _ (List.mem_map_of_mem member)
  have collected :
      text.foldl step (between found) = { between found with pending := text.reverse } := by
    rw [run_plain rfl plain, between, List.append_nil]
  rw [collected, flush]
  simp [between, made]

/-- A quotation is scanned as one token with just its characters. -/
theorem Scans.quotation
    {text : List Placed}
    (quotation : IsQuotation (Placed.characters text)) :
    ∃ token,
      Scans text [token] ∧
      token.kind ≠ .bracket ∧
      token.lexeme = String.ofList (Placed.characters text) := by
  obtain ⟨wordCharacters, contentCharacters, parts, plain, quotable⟩ := quotation.parts
  obtain ⟨word, quoted, rfl, rfl, quotedParts⟩ := List.map_eq_append_iff.mp parts
  obtain ⟨opening, inside, rfl, opens, insideParts⟩ := List.map_eq_cons_iff.mp quotedParts
  obtain ⟨content, last, rfl, rfl, lastParts⟩ := List.map_eq_append_iff.mp insideParts
  obtain ⟨closing, none, rfl, closes, nil⟩ := List.map_eq_cons_iff.mp lastParts
  rw [List.map_eq_nil_iff] at nil
  subst nil
  obtain ⟨token, made, lexeme⟩ := exists_token? .text (by simp) quotation.trimmed
  refine ⟨token, fun found => ?_, by rw [kind_of_token? made]; decide, lexeme⟩
  have plainWord : ∀ placed ∈ word, isPlain placed.character = true :=
    fun placed member => plain _ (List.mem_map_of_mem member)
  have quotableContent : ∀ placed ∈ content, isQuotable placed.character = true :=
    fun placed member => quotable _ (List.mem_map_of_mem member)
  rw [List.foldl_append, run_plain rfl plainWord, List.foldl_cons, step_openingMark rfl opens,
    List.foldl_append, run_quotable rfl quotableContent, List.foldl_cons, List.foldl_nil,
    step_closingMark rfl closes]
  simp [between, collect, flush, made]

end Scanner

/-- A whole text is scanned like a piece of text, from nothing found to its tokens. -/
theorem scan_of_scans
    {text : List Placed}
    {tokens : List Token}
    (scans : Scanner.Scans text tokens) :
    scan text = .ok tokens := by
  have ended :
      (text.foldl Scanner.step Scanner.start).flush .word =
        Scanner.between (tokens.reverse ++ []) :=
    scans []
  have outside : (text.foldl Scanner.step Scanner.start).openQuote = none :=
    congrArg Scanner.openQuote ended
  have found := congrArg Scanner.found ended
  rw [scan, Scanner.finish, outside]
  change Except.ok ((text.foldl Scanner.step Scanner.start).flush .word).found.reverse = _
  rw [found, Scanner.between, List.append_nil, List.reverse_reverse]

end Token

/-! ## Building nodes from their tokens -/

namespace Builder

/-- Tokens are taken as one member. -/
def Builds (tokens : List Token) (node : Node) : Prop :=
  ∀ builder : Builder, tokens.foldlM step builder = .ok (builder.add node)

/-- Tokens are taken as several members, in order. -/
def BuildsAll (tokens : List Token) (members : List Node) : Prop :=
  ∀ builder : Builder,
    tokens.foldlM step builder =
      .ok { builder with members := members.reverse ++ builder.members }

theorem BuildsAll.nil : BuildsAll [] [] :=
  fun _ => rfl

/-- Tokens of members in a row are taken as these members. -/
theorem BuildsAll.cons
    {first more : List Token}
    {member : Node}
    {rest : List Node}
    (memberBuilt : Builds first member)
    (restBuilt : BuildsAll more rest) :
    BuildsAll (first ++ more) (member :: rest) := by
  intro builder
  rw [run_append more (memberBuilt builder), restBuilt]
  simp [add]

/-- A token with the characters of a readable leaf is taken as this leaf. -/
theorem Builds.leaf
    {token : Token}
    {value : Leaf}
    (other : token.kind ≠ .bracket)
    (lexeme : token.lexeme = String.ofList value.characters)
    (readable : value.Readable) :
    Builds [token] (.leaf value) := by
  intro builder
  have opening : token.isOpening = false := by simp [Token.isOpening, other]
  have closing : token.isClosing = false := by simp [Token.isClosing, other]
  rw [List.foldlM_cons, step, opening, closing, lexeme, readable.same]
  rfl

/-- Tokens of members, with brackets around them, are taken as a block of these members. -/
theorem Builds.block
    {tokens : List Token}
    {members : List Node}
    (opening closing : Position)
    (built : BuildsAll tokens members) :
    Builds (.opening opening :: (tokens ++ [.closing closing])) (.block members) := by
  intro builder
  have opened :
      builder.step (.opening opening) = .ok (builder.openBlock (.opening opening)) := rfl
  have inner := built (builder.openBlock (.opening opening))
  have closed :
      step
          { members := members.reverse ++ []
            enclosing := (.opening opening, builder.members) :: builder.enclosing }
          (.closing closing) =
        .ok (builder.add (.block members)) := by
    change Except.ok _ = _
    simp [add]
  rw [run_cons _ opened, run_append _ inner, openBlock, run_cons [] closed]
  rfl

end Builder

/-! ## The source form of readable nodes -/

namespace Leaf.Readable

open Lexeme

variable {leaf : Leaf}

/-- A readable leaf has no blank characters at its ends. -/
theorem trimmed
    (readable : leaf.Readable) :
    Text.trim leaf.characters = leaf.characters := by
  rcases readable.form with word | quotation
  · exact word.trimmed
  · exact quotation.trimmed

theorem characters_ne_nil
    (readable : leaf.Readable) :
    leaf.characters ≠ [] := by
  rcases readable.form with word | quotation
  · exact word.nonempty
  · obtain ⟨word, content, parts, -⟩ := quotation.parts
    rw [parts]
    exact List.append_ne_nil_of_right_ne_nil _ (List.cons_ne_nil _ _)

theorem noLineFeed
    (readable : leaf.Readable) :
    '\n' ∉ leaf.characters := by
  intro member
  rcases readable.form with word | quotation
  · exact ne_of_isPlain (word.plain '\n' member) (by decide) rfl
  · obtain ⟨word, content, parts, plain, quotable⟩ := quotation.parts
    rw [parts] at member
    rcases List.mem_append.mp member with inWord | member
    · exact ne_of_isPlain (plain '\n' inWord) (by decide) rfl
    · rcases List.mem_cons.mp member with isMark | member
      · exact absurd isMark (by decide)
      · rcases List.mem_append.mp member with inContent | isLast
        · exact ne_of_isQuotable (quotable '\n' inContent) (by decide) rfl
        · exact absurd (List.mem_singleton.mp isLast) (by decide)

end Leaf.Readable

namespace Node

open Token.Scanner Builder

/-- A character stands in the forms of members when it is the space or stands in one of them. -/
private theorem mem_spaced
    {character : Char}
    {members : List Node}
    (inSpaced : character ∈ spaced members) :
    character = ' ' ∨ ∃ member ∈ members, character ∈ member.characters := by
  induction members with
  | nil => cases inSpaced
  | cons member rest inductionHypothesis =>
      cases rest with
      | nil => exact .inr ⟨member, List.mem_cons_self, inSpaced⟩
      | cons next others =>
          rw [spaced, List.mem_append, List.mem_cons] at inSpaced
          rcases inSpaced with inFirst | isSpace | inRest
          · exact .inr ⟨member, List.mem_cons_self, inFirst⟩
          · exact .inl isSpace
          · rcases inductionHypothesis inRest with isSpace | ⟨other, isOther, inOther⟩
            · exact .inl isSpace
            · exact .inr ⟨other, List.mem_cons_of_mem member isOther, inOther⟩
          intro single
          cases single

/-- A readable node has no line feed in its source form. -/
theorem Readable.noLineFeed
    {node : Node}
    (readable : node.Readable) :
    '\n' ∉ node.characters := by
  induction readable with
  | leaf readable => exact readable.noLineFeed
  | @block members _ inductionHypothesis =>
      intro inBlock
      rw [characters, List.mem_cons, List.mem_append, List.mem_singleton] at inBlock
      rcases inBlock with isOpening | inMembers | isClosing
      · exact absurd isOpening (by decide)
      · rcases mem_spaced inMembers with isSpace | ⟨member, isMember, inMember⟩
        · exact absurd isSpace (by decide)
        · exact inductionHypothesis member isMember inMember
      · exact absurd isClosing (by decide)

/-- A readable node has no blank characters at the ends of its source form. -/
theorem Readable.trimmed
    {node : Node}
    (readable : node.Readable) :
    Text.trim node.characters = node.characters := by
  cases readable with
  | leaf readable => exact readable.trimmed
  | block _ => exact Text.trimBy_of_mark [] _ (by decide) (by decide)

theorem Readable.characters_ne_nil
    {node : Node}
    (readable : node.Readable) :
    node.characters ≠ [] := by
  cases readable with
  | leaf readable => exact readable.characters_ne_nil
  | block _ => exact List.cons_ne_nil _ _

private theorem spaced_ne_nil
    {first : Node}
    {rest : List Node}
    (readable : first.Readable) :
    spaced (first :: rest) ≠ [] := by
  cases rest with
  | nil => exact readable.characters_ne_nil
  | cons next later =>
      rw [spaced]
      · exact List.append_ne_nil_of_left_ne_nil readable.characters_ne_nil _
      · intro single
        cases single

/-- The forms of members that can each be scanned and built can be so one after the other. -/
private theorem exists_scans_spaced
    {members : List Node}
    (each : ∀ member ∈ members, ∀ text, Placed.characters text = member.characters →
      ∃ tokens, Scans text tokens ∧ Builds tokens member)
    {text : List Placed}
    (form : Placed.characters text = spaced members) :
    ∃ tokens, Scans text tokens ∧ BuildsAll tokens members := by
  induction members generalizing text with
  | nil =>
      rw [spaced, Placed.characters, List.map_eq_nil_iff] at form
      rw [form]
      exact ⟨[], .nil, .nil⟩
  | cons member rest inductionHypothesis =>
      have first := each member List.mem_cons_self
      cases rest with
      | nil =>
          obtain ⟨tokens, scans, builds⟩ := first text form
          refine ⟨tokens, scans, ?_⟩
          rw [← List.append_nil tokens]
          exact BuildsAll.cons builds .nil
      | cons next others =>
          rw [spaced] at form
          · obtain ⟨front, back, rfl, frontForm, backForm⟩ := List.map_eq_append_iff.mp form
            obtain ⟨space, last, rfl, isSpace, lastForm⟩ := List.map_eq_cons_iff.mp backForm
            obtain ⟨tokens, scans, builds⟩ := first front frontForm
            obtain ⟨more, lastScans, lastBuilds⟩ :=
              inductionHypothesis
                (fun other isOther => each other (List.mem_cons_of_mem member isOther)) lastForm
            exact ⟨tokens ++ more, Scans.spaced isSpace scans lastScans,
              BuildsAll.cons builds lastBuilds⟩
          · intro single
            cases single

/-- The form of a readable node, wherever it stands, is scanned and built to that node. -/
theorem Readable.exists_scans
    {node : Node}
    (readable : node.Readable)
    {text : List Placed}
    (form : Placed.characters text = node.characters) :
    ∃ tokens, Scans text tokens ∧ Builds tokens node := by
  induction readable generalizing text with
  | @leaf value readable =>
      change Placed.characters text = value.characters at form
      have scanned :
          ∃ token,
            Scans text [token] ∧
            token.kind ≠ .bracket ∧
            token.lexeme = String.ofList (Placed.characters text) := by
        rcases readable.form with word | quotation
        · exact Scans.word (by rwa [form])
        · exact Scans.quotation (by rwa [form])
      obtain ⟨token, scans, other, lexeme⟩ := scanned
      rw [form] at lexeme
      exact ⟨[token], scans, .leaf other lexeme readable⟩
  | @block members _ inductionHypothesis =>
      -- The brackets are scanned on their own, so the members are a piece by themselves.
      rw [characters] at form
      obtain ⟨opening, rest, rfl, opens, restForm⟩ := List.map_eq_cons_iff.mp form
      obtain ⟨inner, last, rfl, innerForm, lastForm⟩ := List.map_eq_append_iff.mp restForm
      obtain ⟨closing, none, rfl, closes, nil⟩ := List.map_eq_cons_iff.mp lastForm
      rw [List.map_eq_nil_iff.mp nil]
      obtain ⟨tokens, scans, builds⟩ :=
        exists_scans_spaced (fun member isMember _ => inductionHypothesis member isMember)
          innerForm
      exact ⟨_, .bracketed opens closes scans, .block opening.position closing.position builds⟩

end Node

/-! ## Reading what is displayed -/

namespace Source

/-- A single trimmed line is read as it is. -/
theorem characters_layout
    {text : List Char}
    (noLineFeed : '\n' ∉ text)
    (trimmed : Text.trim text = text) :
    Placed.characters (layout (String.ofList text)) = text := by
  rw [characters_layout_eq_joined, joined, String.toList_ofList, Text.pieces_of_line noLineFeed,
    List.map_singleton, List.flatten_singleton, trimmed]

end Source

namespace Node

/-- The forms of readable nodes with spaces between them are trimmed. -/
private theorem trimmed_spaced
    {members : List Node}
    (readable : ∀ member ∈ members, member.Readable) :
    Text.trim (spaced members) = spaced members := by
  induction members with
  | nil => exact Text.trimBy_nil _
  | cons member rest inductionHypothesis =>
      have first := readable member List.mem_cons_self
      have others := fun other isOther => readable other (List.mem_cons_of_mem member isOther)
      cases rest with
      | nil => exact first.trimmed
      | cons next later =>
          rw [spaced]
          · exact Text.trimBy_append_of_trimmed ' ' first.characters_ne_nil
              (spaced_ne_nil (others next List.mem_cons_self)) first.trimmed
              (inductionHypothesis others)
          · intro single
            cases single

/-- Readable nodes are read back from their forms with spaces between them. -/
theorem ofSource_spaced
    {members : List Node}
    (readable : ∀ member ∈ members, member.Readable) :
    ofSource (String.ofList (spaced members)) = .ok members := by
  have noLineFeed : '\n' ∉ spaced members := by
    intro inSpaced
    rcases mem_spaced inSpaced with isSpace | ⟨member, isMember, inMember⟩
    · exact absurd isSpace (by decide)
    · exact (readable member isMember).noLineFeed inMember
  obtain ⟨tokens, scans, builds⟩ :=
    exists_scans_spaced (fun member isMember _ => (readable member isMember).exists_scans)
      (Source.characters_layout noLineFeed (trimmed_spaced readable))
  have scanned : Token.ofSource (String.ofList (spaced members)) = .ok tokens :=
    Token.scan_of_scans scans
  rw [ofSource, scanned]
  change ofTokens tokens = _
  rw [ofTokens, builds]
  change Except.ok _ = _
  simp [Builder.start]

/-- A readable node is read back from its display. -/
theorem Readable.ofSource_display
    {node : Node}
    (readable : node.Readable) :
    ofSource node.display = .ok [node] := by
  have alone : spaced [node] = node.characters := by rw [spaced]
  rw [display, ← alone]
  exact ofSource_spaced fun member isMember => by rwa [List.mem_singleton.mp isMember]

/-- A node is readable if and only if its displayed form is read as this node. -/
theorem readable_iff_ofSource_display
    {node : Node} :
    node.Readable ↔ ofSource node.display = .ok [node] := by
  constructor
  · exact Readable.ofSource_display
  · intro read
    exact (readable_of_ofSource read).members node List.mem_cons_self

/-- Nodes read from any two texts are equal when they are displayed alike. -/
theorem Readable.eq_of_display
    {node other : Node}
    (readable : node.Readable)
    (otherReadable : other.Readable)
    (alike : node.display = other.display) :
    node = other := by
  have read := readable.ofSource_display
  rw [alike, otherReadable.ofSource_display] at read
  cases read
  rfl

end Node

end CellScript
