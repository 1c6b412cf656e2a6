import CellScript.Proofs.ClosedHeaps
import CellScript.Proofs.ReadBack

namespace CellScript

/-!
# Unbroken texts

Source text is read line by line, so no text in a tree has a line feed.  Forms cut,
join and splice texts, but they put nothing between the pieces that would break a
line.  So no text that a script can build has a line feed either.
-/

/-- A text without line feeds. -/
def Text.IsUnbroken (content : String) : Prop :=
  '\n' ∉ content.toList

instance (content : String) : Decidable (Text.IsUnbroken content) :=
  inferInstanceAs (Decidable ('\n' ∉ content.toList))

namespace Text.IsUnbroken

variable {content other : String}

theorem append
    (unbroken : IsUnbroken content)
    (otherUnbroken : IsUnbroken other) :
    IsUnbroken (content ++ other) := by
  rw [IsUnbroken, String.toList_append, List.mem_append, not_or]
  exact ⟨unbroken, otherUnbroken⟩

/-- Texts with an unbroken separator between them make an unbroken text. -/
theorem intercalate
    {separator : String}
    {texts : List String}
    (separates : IsUnbroken separator)
    (unbroken : ∀ text ∈ texts, IsUnbroken text) :
    IsUnbroken (String.intercalate separator texts) := by
  induction texts with
  | nil => exact nofun
  | cons text rest inductionHypothesis =>
      have first := unbroken text List.mem_cons_self
      have others := inductionHypothesis fun other isOther =>
        unbroken other (List.mem_cons_of_mem text isOther)
      cases rest with
      | nil => rwa [String.intercalate_singleton]
      | cons next later =>
          rw [String.intercalate_cons_cons]
          exact (first.append separates).append others

theorem truthText
    (value : Bool) :
    IsUnbroken (Value.truthText value) := by
  cases value <;> decide

/-- Decimal digits and the minus sign are no line feeds. -/
theorem integerText
    (value : Int64) :
    IsUnbroken (Value.integerText value) := by
  rw [IsUnbroken, Value.integerText, String.toList_ofList]
  intro among
  rcases Decimal.mem_ofInt among with isMinus | isDigit
  · exact absurd isMinus (by decide)
  · exact absurd isDigit (by decide)

end Text.IsUnbroken

namespace Node

/-- A node whose source form has no line feed. -/
def IsUnbroken (node : Node) : Prop :=
  '\n' ∉ node.characters

/-- The source form of a member is a part of that of the block. -/
theorem mem_characters_of_member
    {member : Node}
    {members : List Node}
    {character : Char}
    (isMember : member ∈ members)
    (inMember : character ∈ member.characters) :
    character ∈ (Node.block members).characters := by
  have inSpaced : character ∈ spaced members := by
    induction members with
    | nil => cases isMember
    | cons first rest inductionHypothesis =>
        cases rest with
        | nil =>
            obtain rfl := List.mem_singleton.mp isMember
            exact inMember
        | cons next others =>
            rw [spaced, List.mem_append, List.mem_cons]
            · rcases List.mem_cons.mp isMember with rfl | isOther
              · exact .inl inMember
              · exact .inr (.inr (inductionHypothesis isOther))
            · exact List.cons_ne_nil _ _
  rw [characters]
  exact List.mem_cons_of_mem _ (List.mem_append_left _ inSpaced)

namespace IsUnbroken

/-- A line feed in a member would stand in the source form of the block. -/
theorem members
    {members : List Node}
    (unbroken : (Node.block members).IsUnbroken) :
    ∀ member ∈ members, member.IsUnbroken :=
  fun _ isMember inMember => unbroken (mem_characters_of_member isMember inMember)

/-- A text that stands somewhere in an unbroken tree is unbroken. -/
theorem content
    {content : String}
    (stands : (Leaf.text content).Stands Node.IsUnbroken) :
    Text.IsUnbroken content := by
  have leaf : (Node.leaf (.text content)).IsUnbroken := by
    rcases stands with unbroken | ⟨operands, unbroken⟩
    · exact unbroken
    · exact unbroken.members _ List.mem_cons_self
  exact fun among => leaf (List.mem_cons_of_mem _ (List.mem_append_left _ among))

/-- The body that a function form stores is a part of the form, or an empty block. -/
theorem body
    {operands : List Node}
    (unbroken : (Node.form "fn" operands).IsUnbroken) :
    (operands[1]?.getD (Node.block [])).IsUnbroken := by
  cases found : operands[1]? with
  | none => exact (by decide : '\n' ∉ (Node.block []).characters)
  | some body =>
      exact unbroken.members body (List.mem_cons_of_mem _ (List.mem_of_getElem? found))

end IsUnbroken

end Node

/-- A value with neither a text nor a body that has a line feed. -/
def Value.IsUnbroken : Value → Prop
  | .text content => Text.IsUnbroken content
  | .function _ body => body.IsUnbroken
  | .none | .boolean _ | .integer _ | .list _ => True

/-- All values of a heap are unbroken. -/
def Heap.IsUnbroken (heap : Heap) : Prop :=
  ∀ cell, (heap.read cell).IsUnbroken

namespace Heap.IsUnbroken

variable {heap : Heap}

theorem empty : Heap.empty.IsUnbroken :=
  fun _ => trivial

/-- A new cell with an unbroken value leaves the heap unbroken. -/
theorem allocate
    (unbroken : heap.IsUnbroken)
    {value : Value}
    (isUnbroken : value.IsUnbroken) :
    (heap.allocate value).2.IsUnbroken := by
  intro cell
  rcases heap.read_allocate_cases value cell with rfl | isOld
  · rwa [Heap.read_allocate_self]
  · rw [isOld]
    exact unbroken cell

/-- Overwriting a cell with an unbroken value leaves the heap unbroken. -/
theorem write
    (unbroken : heap.IsUnbroken)
    (written : Cell)
    {value : Value}
    (isUnbroken : value.IsUnbroken) :
    (heap.write written value).IsUnbroken := by
  intro cell
  rcases heap.read_write_cases written cell value with isNew | isOld
  · rwa [isNew]
  · rw [isOld]
    exact unbroken cell

/-! ## Values as text -/

variable {value : Value}

/-- Brackets, commas and quotation marks put no line feed between the items of a list. -/
theorem displayWithin
    (unbroken : heap.IsUnbroken)
    (room : Nat)
    (isUnbroken : value.IsUnbroken) :
    Text.IsUnbroken (value.displayWithin heap room) := by
  fun_induction Value.displayWithin heap room value with
  | case1 | case5 | case6 => decide
  | case2 _ truth => exact .truthText truth
  | case3 _ number => exact .integerText number
  | case4 _ content =>
      exact ((by decide : Text.IsUnbroken "\"").append isUnbroken).append (by decide)
  | case7 room slots inductionHypothesis =>
      refine ((by decide : Text.IsUnbroken "[").append (.intercalate (by decide) ?_)).append
        (by decide)
      intro text isText
      obtain ⟨slot, -, rfl⟩ := List.mem_map.mp isText
      exact inductionHypothesis slot (unbroken slot)

theorem render
    (unbroken : heap.IsUnbroken)
    (isUnbroken : value.IsUnbroken) :
    Text.IsUnbroken (value.render heap) := by
  unfold Value.render
  split
  · exact isUnbroken
  · exact unbroken.displayWithin _ isUnbroken

/-- The commas between the items of a list put no line feed there. -/
theorem joinWithin
    (unbroken : heap.IsUnbroken)
    (room : Nat)
    (isUnbroken : value.IsUnbroken) :
    Text.IsUnbroken (value.joinWithin heap room) := by
  fun_induction Value.joinWithin heap room value with
  | case1 | case5 | case6 => decide
  | case2 _ truth => exact .truthText truth
  | case3 _ number => exact .integerText number
  | case4 _ content => exact isUnbroken
  | case7 room slots inductionHypothesis =>
      refine .intercalate (by decide) ?_
      intro text isText
      obtain ⟨slot, -, rfl⟩ := List.mem_map.mp isText
      dsimp only
      split
      · exact inductionHypothesis slot (unbroken slot)
      · decide

/-! ## Values that forms make -/

theorem toText
    (unbroken : heap.IsUnbroken)
    (isUnbroken : value.IsUnbroken) :
    Text.IsUnbroken (Scalar.ofValue heap value).toText := by
  cases value with
  | none | function => exact (by decide : Text.IsUnbroken "none")
  | boolean truth => exact .truthText truth
  | integer number => exact .integerText number
  | text content => exact isUnbroken
  | list slots => exact unbroken.joinWithin _ isUnbroken

/-- Arithmetic makes numbers, or texts put together from those of its operands. -/
theorem result
    (unbroken : heap.IsUnbroken)
    (operator : Arithmetic)
    (left right : Cell) :
    (operator.apply heap left right).IsUnbroken := by
  unfold Arithmetic.apply Arithmetic.onScalars
  split
  · exact (unbroken.toText (unbroken left)).append (unbroken.toText (unbroken right))
  · split
    · split
      · trivial
      · trivial
    · trivial

/-- A value that a form makes is unbroken if its texts stand in the tree. -/
theorem made
    {holds : Cell → Prop}
    (unbroken : heap.IsUnbroken)
    (isMade : value.Made Node.IsUnbroken holds heap) :
    value.IsUnbroken := by
  cases isMade with
  | none | boolean | integer | list => trivial
  | text stands => exact Node.IsUnbroken.content stands
  | @character owner index character _ isCharacter =>
      unfold Heap.character? at isCharacter
      split at isCharacter
      · next content position isText _ =>
          have whole := unbroken owner
          rw [isText] at whole
          rw [Value.IsUnbroken, Text.IsUnbroken, String.toList_ofList, List.mem_singleton]
          rintro rfl
          exact whole (List.mem_of_getElem? isCharacter)
      · cases isCharacter
  | result operator => exact unbroken.result operator _ _
  | function parameters making => exact Node.IsUnbroken.body making

/-- A splice takes its characters from two unbroken texts. -/
theorem spliced
    (unbroken : heap.IsUnbroken)
    (owner : Cell)
    (position : Nat)
    (source : Cell) :
    (Evaluation.spliced heap (heap.read owner) position (heap.read source)).IsUnbroken := by
  have whole := unbroken owner
  cases isOwner : heap.read owner with
  | text content =>
      rw [isOwner] at whole
      have inserted : Text.IsUnbroken ((heap.read source).render heap) :=
        unbroken.render (unbroken source)
      rw [Evaluation.spliced, Value.IsUnbroken, Text.IsUnbroken, String.toList_ofList, Text.splice,
        List.mem_append, List.mem_append]
      rintro ((inFront | inside) | behind)
      · exact whole (List.mem_of_mem_take inFront)
      · exact inserted inside
      · exact whole (List.mem_of_mem_drop behind)
  | none | boolean | integer | list | function =>
      rw [isOwner] at whole
      exact whole

/-- Copying a value from one cell into another leaves the heap unbroken. -/
theorem assign
    (unbroken : heap.IsUnbroken)
    (target source : Cell) :
    (heap.assign target source).IsUnbroken :=
  unbroken.write target (unbroken source)

/-- The body of a stored function is as unbroken as the heap that stores it. -/
theorem body_of_function
    (unbroken : heap.IsUnbroken)
    {cell : Cell}
    {parameters : List String}
    {body : Node}
    (isFunction : heap.read cell = .function parameters body) :
    body.IsUnbroken := by
  have held := unbroken cell
  rw [isFunction] at held
  exact held

end Heap.IsUnbroken

/-- Unbroken heaps stay unbroken when unbroken nodes are evaluated. -/
theorem custodyOfUnbroken :
    (custodyOfHeap Heap.IsUnbroken).Lawful Node.IsUnbroken :=
  custodyOfHeap.lawful
    (fun unbroken isMade => unbroken.allocate (unbroken.made isMade))
    (fun _ unbroken => unbroken.assign _ _)
    (fun {_ _ owner position source} _ unbroken =>
      unbroken.write owner (unbroken.spliced owner position source))
    (fun _ unbroken => unbroken.members)
    (fun _ unbroken operand isOperand =>
      unbroken.members operand (List.mem_cons_of_mem _ isOperand))
    (fun unbroken isFunction => unbroken.body_of_function isFunction)

end CellScript
