import CellScript.Proofs.Assignments

namespace CellScript

/-!
# Writing into texts

An indexed assignment to a variable that holds a text writes characters into that text.
A text takes the place of as many characters as it has itself, from the position on; any
other value is inserted in its printed form.  What has been written is what indexing the
variable gives, character by character.
-/

/-! ## Windows of a text -/

namespace Text

variable (content inserted : List Char) (position : Nat)

theorem length_before :
    (content.take (min position content.length)).length = min position content.length := by
  rw [List.length_take]
  omega

/-- A text takes the place of as many characters as it has, unless it reaches over the end. -/
theorem length_splice :
    (splice content position inserted.length inserted).length =
      max content.length (min position content.length + inserted.length) := by
  simp only [splice, List.length_append, List.length_take, List.length_drop]
  omega

/-- Where a splice inserts, its characters are the inserted ones. -/
theorem getElem?_splice_within
    {offset : Nat}
    (within : offset < inserted.length) :
    (splice content position inserted.length inserted)[min position content.length + offset]? =
      inserted[offset]? := by
  have lengthBefore := length_before content position
  rw [splice, List.append_assoc, List.getElem?_append_right (by omega), lengthBefore,
    Nat.add_sub_cancel_left, List.getElem?_append_left within]

/-- Where a splice of as many characters as it replaces does not insert, nothing changes. -/
theorem getElem?_splice_outside
    {index : Nat}
    (outside : index < min position content.length ∨
      min position content.length + inserted.length ≤ index) :
    (splice content position inserted.length inserted)[index]? = content[index]? := by
  have lengthBefore := length_before content position
  rw [splice]
  rcases outside with before | behind
  · rw [List.append_assoc, List.getElem?_append_left (by omega), List.getElem?_take_of_lt before]
  · have lengthWindow :
        (content.take (min position content.length) ++ inserted).length =
          min position content.length + inserted.length := by
      rw [List.length_append, lengthBefore]
    rw [List.getElem?_append_right (by omega), lengthWindow, List.getElem?_drop,
      Nat.add_sub_cancel' behind]

/-- A text hides one of its length that was written at its position before. -/
theorem splice_splice
    {later : List Char}
    (within : position ≤ content.length)
    (equal : later.length = inserted.length) :
    splice (splice content position inserted.length inserted) position later.length later =
      splice content position later.length later := by
  have start : min position content.length = position := Nat.min_eq_left within
  have startAgain :
      min position (splice content position inserted.length inserted).length = position := by
    rw [length_splice]
    omega
  have lengthBefore : (content.take position).length = position := by
    rw [List.length_take, start]
  have lengthWindow : (content.take position ++ inserted).length = position + later.length := by
    rw [List.length_append, lengthBefore, equal]
  -- Both texts fill the same window, so the earlier one has left the rest to the later one.
  have front :
      (splice content position inserted.length inserted).take position = content.take position := by
    rw [splice, start, List.append_assoc, List.take_left' lengthBefore]
  have back :
      (splice content position inserted.length inserted).drop (position + later.length) =
        content.drop (position + later.length) := by
    rw [splice, start, List.drop_left' lengthWindow, equal]
  calc splice (splice content position inserted.length inserted) position later.length later
      = content.take position ++ later ++ content.drop (position + later.length) := by
        rw [splice, startAgain, front, back]
    _ = splice content position later.length later := by
        rw [splice, start]

end Text

namespace Evaluation

/-! ## Reading -/

/-- What indexing a text gives: a character as a text of its own, or nothing behind the end. -/
def characterValue : Option Char → Value
  | some character => .text (String.ofList [character])
  | none => .none

/-- On a machine, indexing a name with some integer gives a character, or nothing. -/
def ReadsAt
    (machine : Machine)
    (name : String)
    (index : Int64)
    (character? : Option Char) : Prop :=
  ∀ limits fuel, ∃ cell after,
    CellScript.evaluate limits (fuel + 2)
        (.form "index" [.leaf (.word name), .leaf (.number index)]) machine = .done cell after ∧
      after.heap.read cell = characterValue character?

section

variable {heap : Heap} {machine : Machine} {name : String} {index : Int64}
variable {cell : Cell} {content : String}

theorem read_allocate_of_text
    (value : Value)
    (isText : heap.read cell = .text content) :
    (heap.allocate value).2.read cell = .text content := by
  have has : heap.Has cell := Heap.has_of_read (by rw [isText]; nofun)
  exact (Heap.read_allocate_of_lt value has).trans isText

theorem slot?_of_text
    (index : Cell)
    (isText : heap.read cell = .text content) :
    heap.slot? cell index = none := by
  rw [Heap.slot?, isText]

theorem position?_allocate
    (heap : Heap)
    (notNegative : 0 ≤ index.toInt) :
    ((heap.allocate (.integer index)).2.read (heap.allocate (.integer index)).1).position? =
      some index.toInt.toNat := by
  rw [Heap.read_allocate_self, Value.position?, if_pos notNegative]

/-- A name that means a text comes to the cell of the text. -/
theorem evaluate_word_of_text
    (limits : Limits)
    (fuel : Nat)
    (named : name ≠ "none")
    (bound : machine.frames.lookup? name = some cell)
    (isText : machine.heap.read cell = .text content) :
    CellScript.evaluate limits (fuel + 1) (.leaf (.word name)) machine = .done cell machine := by
  have notFunction : (machine.heap.read cell).isFunction = false := by
    rw [isText]
    rfl
  simp only [CellScript.evaluate, step, leafValue, if_neg named, Action.lookup?, Action.contents,
    Action.look, Action.bind_apply, bound, notFunction]
  rfl

/-- Where there is no slot, indexing gives a character. -/
theorem elementAt_of_no_slot
    {evaluate : Evaluator}
    {operands : List Node}
    {known : Machine}
    {owner index : Cell}
    (ended : operandPair evaluate operands machine = .done (owner, index) known)
    (noSlot : known.heap.slot? owner index = none) :
    elementAt evaluate operands machine =
      Action.allocate (characterValue (known.heap.character? owner index)) known := by
  rw [elementAt, Action.bind_of_done ended]
  simp only [Action.look, Action.bind_apply, noSlot]
  cases known.heap.character? owner index with
  | some character => rfl
  | none => rfl

/-- Indexing a variable that holds a text gives the characters of the text. -/
theorem readsAt_of_text
    (named : name ≠ "none")
    (bound : machine.frames.lookup? name = some cell)
    (isText : machine.heap.read cell = .text content)
    (notNegative : 0 ≤ index.toInt) :
    ReadsAt machine name index content.toList[index.toInt.toNat]? := by
  intro limits fuel
  let number := machine.heap.allocate (.integer index)
  let known : Machine := { machine with heap := number.2 }
  have pairEnds : operandPair (CellScript.evaluate limits (fuel + 1))
      [.leaf (.word name), .leaf (.number index)] machine = .done (cell, number.1) known :=
    Action.bind_of_done (evaluate_word_of_text limits fuel named bound isText)
  have stillText := read_allocate_of_text (.integer index) isText
  have isPosition := position?_allocate machine.heap notNegative
  have character : number.2.character? cell number.1 = content.toList[index.toInt.toNat]? := by
    rw [Heap.character?, stillText, isPosition]
  refine ⟨_, _, elementAt_of_no_slot pairEnds (slot?_of_text _ stillText), ?_⟩
  rw [← character]
  exact Heap.read_allocate_self _ _

/-- A variable that holds a text and an integer settle on a position in that text. -/
theorem settles_of_text
    (limits : Limits)
    (fuel : Nat)
    (named : name ≠ "none")
    (bound : machine.frames.lookup? name = some cell)
    (isText : machine.heap.read cell = .text content)
    (notNegative : 0 ≤ index.toInt) :
    Settles limits (fuel + 1) (.form "index" [.leaf (.word name), .leaf (.number index)]) machine
      cell (.spliced index.toInt.toNat)
      { machine with heap := (machine.heap.allocate (.integer index)).2 } := by
  have ownerEnds :
      Action.catchReturn (CellScript.evaluate limits (fuel + 1) (.leaf (.word name))) machine =
        .done cell machine := by
    rw [Action.catchReturn, evaluate_word_of_text limits fuel named bound isText]
  have stillText := read_allocate_of_text (.integer index) isText
  exact .position ownerEnds rfl (slot?_of_text _ stillText)
    (position?_allocate machine.heap notNegative) bound

end

/-! ## Writing -/

/--
An indexed assignment on some machine: its target has settled on a position in the text
that a cell holds, and its value has been evaluated.
-/
structure TextWrite where
  limits : Limits
  fuel : Nat
  target : Node
  rest : List Node
  machine : Machine
  known : Machine
  final : Machine
  cell : Cell
  source : Cell
  position : Nat
  content : String
  settles : Settles limits fuel target machine cell (.spliced position) known
  valueEnds :
    operand (CellScript.evaluate limits fuel) (target :: rest) 1 known = .done source final
  isText : final.heap.read cell = .text content

namespace TextWrite

/-- A text assigned at an integer to a variable that holds a text, all written out in a script. -/
def ofLiterals
    (limits : Limits)
    (fuel : Nat)
    (index : Int64)
    (text : String)
    {machine : Machine}
    {name : String}
    {cell : Cell}
    {content : String}
    (named : name ≠ "none")
    (bound : machine.frames.lookup? name = some cell)
    (isText : machine.heap.read cell = .text content)
    (notNegative : 0 ≤ index.toInt) :
    TextWrite :=
  let number := machine.heap.allocate (.integer index)
  let literal := number.2.allocate (.text text)
  { limits
    fuel := fuel + 1
    target := .form "index" [.leaf (.word name), .leaf (.number index)]
    rest := [.leaf (.text text)]
    machine
    known := { machine with heap := number.2 }
    final := { machine with heap := literal.2 }
    cell
    source := literal.1
    position := index.toInt.toNat
    content
    settles := settles_of_text limits fuel named bound isText notNegative
    valueEnds := rfl
    isText := read_allocate_of_text _ (read_allocate_of_text _ isText) }

/-- The value that is written. -/
def value (write : TextWrite) : Value :=
  write.final.heap.read write.source

/-- The position of the first character that is written. -/
def start (write : TextWrite) : Nat :=
  min write.position write.content.length

/-- The text that the content becomes. -/
def written (write : TextWrite) : String :=
  String.ofList
    (Text.splice write.content.toList write.position (replacedBy write.value)
      (write.value.render write.final.heap).toList)

/-- The assignment comes to its end, on a machine on which the cell holds some text. -/
structure Leaves (write : TextWrite) (after : Machine) (content : String) : Prop where
  ended : ∃ result,
    CellScript.evaluate write.limits (write.fuel + 1)
      (.form "set" (write.target :: write.rest)) write.machine = .done result after
  frames : after.frames = write.final.frames
  now : after.heap.read write.cell = .text content

variable (write : TextWrite)

/-- The assignment comes to its end, and then the cell holds the text that is written. -/
theorem exists_leaves :
    ∃ after, write.Leaves after write.written := by
  have has : write.final.heap.Has write.cell := Heap.has_of_read (by rw [write.isText]; nofun)
  obtain ⟨result, after, writes, overwrites⟩ :=
    overwrite_ends (.spliced write.position) write.source has
  refine ⟨after, ⟨result, ?_⟩, overwrites.frames, overwrites.now.trans ?_⟩
  · rw [evaluate_set_of_settles write.settles, Action.bind_of_done write.valueEnds, writes]
  · rw [Manner.value, write.isText]
    rfl

variable {write} {text : String}

/-- A text takes the place of as many characters as it has. -/
theorem toList_written
    (isText : write.value = .text text) :
    write.written.toList =
      Text.splice write.content.toList write.position text.toList.length text.toList := by
  rw [written, isText, String.toList_ofList, Value.render_text]
  rfl

/-- Writing a text makes the content longer only where it goes beyond its end. -/
theorem length_written
    (isText : write.value = .text text) :
    write.written.length = max write.content.length (write.start + text.length) := by
  rw [← String.length_toList, toList_written isText, Text.length_splice, String.length_toList,
    String.length_toList, start]

/-- What is no text takes the place of nothing. -/
theorem toList_written_of_not_text
    (noText : ∀ text, write.value ≠ .text text) :
    write.written.toList =
      write.content.toList.take write.start ++ (write.value.render write.final.heap).toList ++
        write.content.toList.drop write.start := by
  have replacesNothing : replacedBy write.value = 0 := by
    unfold replacedBy
    split
    · next content isText => exact absurd isText (noText content)
    · rfl
  rw [written, String.toList_ofList, replacesNothing, Text.splice, String.length_toList, start,
    Nat.add_zero]

/-! ### Reading back -/

section

variable {after : Machine} {name : String} {index : Int64}

/-- Inside the window that was written, the written characters are read. -/
theorem Leaves.readsAt_within
    (leaves : write.Leaves after write.written)
    (isText : write.value = .text text)
    (named : name ≠ "none")
    (bound : after.frames.lookup? name = some write.cell)
    {offset : Nat}
    (within : offset < text.length)
    (atOffset : index.toInt = write.start + offset) :
    ReadsAt after name index text.toList[offset]? := by
  have notNegative : 0 ≤ index.toInt := by omega
  have reads := readsAt_of_text named bound leaves.now notNegative
  have position : index.toInt.toNat = min write.position write.content.toList.length + offset := by
    rw [atOffset, start, String.length_toList]
    omega
  rw [toList_written isText, position, Text.getElem?_splice_within] at reads
  · exact reads
  · rwa [String.length_toList]

/-- Outside the window that was written, the characters from before are read. -/
theorem Leaves.readsAt_outside
    (leaves : write.Leaves after write.written)
    (isText : write.value = .text text)
    (named : name ≠ "none")
    (bound : after.frames.lookup? name = some write.cell)
    (notNegative : 0 ≤ index.toInt)
    (outside : index.toInt < write.start ∨ write.start + text.length ≤ index.toInt) :
    ReadsAt after name index write.content.toList[index.toInt.toNat]? := by
  have reads := readsAt_of_text named bound leaves.now notNegative
  rw [toList_written isText, Text.getElem?_splice_outside] at reads
  · exact reads
  · rw [String.length_toList, String.length_toList]
    rw [start] at outside
    omega

end

/-! ### Writing again -/

/-- A text is written at a position of some content. -/
structure Puts
    (write : TextWrite)
    (text : String)
    (position : Nat)
    (content : String) : Prop where
  value : write.value = .text text
  position : write.position = position
  content : write.content = content

/-- Texts that are written out in a script are written where they say. -/
theorem puts_ofLiterals
    (limits : Limits)
    (fuel : Nat)
    (text : String)
    {machine : Machine}
    {name : String}
    {index : Int64}
    {cell : Cell}
    {content : String}
    (named : name ≠ "none")
    (bound : machine.frames.lookup? name = some cell)
    (isText : machine.heap.read cell = .text content)
    (notNegative : 0 ≤ index.toInt) :
    (ofLiterals limits fuel index text named bound isText notNegative).Puts text
      index.toInt.toNat content where
  value := Heap.read_allocate_self _ _
  position := rfl
  content := rfl

/-- Of two texts of one length that are written at one position, only the last one counts. -/
theorem written_again
    {again alone : TextWrite}
    {other : String}
    (within : write.position ≤ write.content.length)
    (isText : write.value = .text text)
    (equal : other.length = text.length)
    (putAgain : again.Puts other write.position write.written)
    (putAlone : alone.Puts other write.position write.content) :
    again.written = alone.written := by
  have withinList : write.position ≤ write.content.toList.length := by
    rwa [String.length_toList]
  have equalLists : other.toList.length = text.toList.length := by
    rwa [String.length_toList, String.length_toList]
  rw [← String.toList_inj, toList_written putAgain.value, toList_written putAlone.value,
    putAgain.position, putAgain.content, putAlone.position, putAlone.content,
    toList_written isText, Text.splice_splice _ _ _ withinList equalLists]

/--
An indexed assignment splices the assigned value into the text that a variable holds.  A
text fills a window of its own length, which starts at the position or at the end of the
content, whichever comes first; indexing the variable gives the characters of the text
within the window and those of the content outside.  Any other value is inserted there in
its printed form.  Where the position is not behind the end, writing a text once more
changes nothing, and a text hides one of the same length that was written before it.
-/
theorem indexed_assignment_splices_text
    (write : TextWrite) :
    ∃ after written,
      write.Leaves after written ∧
      (∀ text,
        write.value = .text text →
        written.length = max write.content.length (write.start + text.length) ∧
        ∀ name index,
          name ≠ "none" →
          after.frames.lookup? name = some write.cell →
          (∀ offset,
            offset < text.length →
            Int64.toInt index = write.start + offset →
            ReadsAt after name index text.toList[offset]?) ∧
          (0 ≤ index.toInt →
            index.toInt < write.start ∨ write.start + text.length ≤ index.toInt →
            ReadsAt after name index write.content.toList[index.toInt.toNat]?)) ∧
      ((∀ text, write.value ≠ .text text) →
        written.toList =
          write.content.toList.take write.start ++
            (write.value.render write.final.heap).toList ++
            write.content.toList.drop write.start) ∧
      (write.position ≤ write.content.length →
        ∀ text,
          write.value = .text text →
          (∀ again : TextWrite,
            again.Puts text write.position written →
            ∃ later, again.Leaves later written) ∧
          ∀ (again alone : TextWrite) (other : String),
            other.length = text.length →
            again.Puts other write.position written →
            alone.Puts other write.position write.content →
            ∃ later elsewhere last,
              again.Leaves later last ∧ alone.Leaves elsewhere last) := by
  obtain ⟨after, leaves⟩ := write.exists_leaves
  refine ⟨after, write.written, leaves, ?_, toList_written_of_not_text, ?_⟩
  · intro text isText
    refine ⟨length_written isText, fun name index named bound => ⟨?_, ?_⟩⟩
    · exact fun offset => leaves.readsAt_within isText named bound
    · exact leaves.readsAt_outside isText named bound
  · intro within text isText
    constructor
    · intro again putAgain
      obtain ⟨later, leavesAgain⟩ := again.exists_leaves
      rw [written_again within isText rfl putAgain ⟨isText, rfl, rfl⟩] at leavesAgain
      exact ⟨later, leavesAgain⟩
    · intro again alone other equal putAgain putAlone
      obtain ⟨later, leavesAgain⟩ := again.exists_leaves
      obtain ⟨elsewhere, leavesAlone⟩ := alone.exists_leaves
      rw [written_again within isText equal putAgain putAlone] at leavesAgain
      exact ⟨later, elsewhere, _, leavesAgain, leavesAlone⟩

/-- Two characters written over the last one of three make four, also when written twice. -/
theorem accents_written_over_the_end_are_read_back :
    let text := Heap.empty.allocate (.text "abc")
    let machine : Machine :=
      { Machine.start none with
        heap := text.2
        frames := FrameStack.global.declare "s" text.1 }
    ∃ write : TextWrite,
      write.machine = machine ∧
      write.Puts "éé" 2 "abc" ∧
      ∃ after written,
        write.Leaves after written ∧
        written.length = 4 ∧
        ReadsAt after "s" 1 (some 'b') ∧
        ReadsAt after "s" 3 (some 'é') ∧
        ReadsAt after "s" 4 none ∧
        ∃ again : TextWrite,
          again.machine = after ∧
          again.Puts "éé" 2 written ∧
          ∃ later, again.Leaves later written := by
  intro text machine
  have bound : machine.frames.lookup? "s" = some text.1 := rfl
  have isText : machine.heap.read text.1 = .text "abc" := rfl
  let limits : Limits := { maxIterations := none }
  let write := ofLiterals limits 0 2 "éé" (by decide) bound isText (by decide)
  have puts : write.Puts "éé" 2 "abc" := puts_ofLiterals ..
  have start : write.start = 2 := by
    rw [TextWrite.start, puts.position, puts.content]
    decide
  have within : write.position ≤ write.content.length := by
    rw [puts.position, puts.content]
    decide
  obtain ⟨after, written, leaves, ofText, -, ofRepetition⟩ := indexed_assignment_splices_text write
  obtain ⟨length, reads⟩ := ofText "éé" puts.value
  obtain ⟨repeats, -⟩ := ofRepetition within "éé" puts.value
  rw [puts.content, start] at length
  rw [puts.content, start] at reads
  have boundAfter : after.frames.lookup? "s" = some text.1 := by
    rw [leaves.frames]
    exact bound
  let again := ofLiterals limits 0 2 "éé" (by decide) boundAfter leaves.now (by decide)
  have putsAgain : again.Puts "éé" 2 written := puts_ofLiterals ..
  refine ⟨write, rfl, puts, after, written, leaves, length.trans (by decide), ?_, ?_, ?_,
    again, rfl, putsAgain, repeats again putsAgain⟩
  · have readsB := (reads "s" 1 (by decide) boundAfter).2 (by decide) (by decide)
    rwa [show "abc".toList[Int64.toInt 1 |>.toNat]? = some 'b' by decide] at readsB
  · have readsAccent := (reads "s" 3 (by decide) boundAfter).1 1 (by decide) (by decide)
    rwa [show "éé".toList[1]? = some 'é' by decide] at readsAccent
  · have readsNothing := (reads "s" 4 (by decide) boundAfter).2 (by decide) (by decide)
    rwa [show "abc".toList[Int64.toInt 4 |>.toNat]? = none by decide] at readsNothing

end TextWrite

end Evaluation

end CellScript
