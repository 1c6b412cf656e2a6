import CellScript.Outcome
import CellScript.Proofs.Decoding
import CellScript.Proofs.Printed
import CellScript.Proofs.RunIsolation
import CellScript.Proofs.UnbrokenTexts

namespace CellScript

/-!
# Lines of output

A script that ran apart reports its output as lines, and for that the bytes in the
sink are read as text and the text is cut at its line feeds.  No printed text has a
line feed, so there are as many lines as print forms were executed, each with what
its form has printed.  Only a carriage return that stands last on a line is taken for
a part of the line ending and gets lost.
-/

namespace Text

/-- Unbroken lines that are each ended by a line feed are cut apart there, with nothing left over. -/
theorem pieces_of_ended
    {lines : List (List Char)}
    (unbroken : ∀ line ∈ lines, '\n' ∉ line) :
    pieces (lines.flatMap fun line => line ++ ['\n']) = lines ++ [[]] := by
  induction lines with
  | nil => rfl
  | cons line rest inductionHypothesis =>
      have bare : ∀ character ∈ line, (character == '\n') = false := by
        intro character isMember
        rw [beq_eq_false_iff_ne]
        rintro rfl
        exact unbroken line List.mem_cons_self isMember
      have others := inductionHypothesis fun other isOther =>
        unbroken other (List.mem_cons_of_mem line isOther)
      rw [List.flatMap_cons, List.append_assoc, List.singleton_append, pieces,
        piecesBy_append_cons _ bare (beq_self_eq_true _), List.cons_append, ← others]
      rfl

/-- What stands behind the last line feed is no line when it is empty. -/
theorem finishPieces_append_empty
    (lines : List (List Char)) :
    finishPieces (lines ++ [[]]) = lines.map dropReturn := by
  induction lines with
  | nil => rfl
  | cons line rest inductionHypothesis =>
      rw [List.cons_append, List.map_cons, ← inductionHypothesis, finishPieces]
      intro single
      cases rest <;> cases single

/-- The lines of a text made of unbroken lines, each ended by a line feed, are these lines. -/
theorem lines_of_ended
    {lines : List (List Char)}
    (unbroken : ∀ line ∈ lines, '\n' ∉ line) :
    Text.lines (lines.flatMap fun line => line ++ ['\n']) = lines.map dropReturn := by
  rw [Text.lines, pieces_of_ended unbroken, finishPieces_append_empty]

end Text

/-! ## Sinks without limit -/

/-- The text of a printed line. -/
def lineOf (texts : List String) : String :=
  String.intercalate " " texts

namespace Sink

/-- A sink without limit keeps the bytes of all lines, each with a line feed behind it. -/
theorem written_takeLines
    {sink : Sink}
    (unlimited : sink.room = none)
    (lines : List (List String)) :
    (sink.takeLines lines).written =
      sink.written ++ (String.join (lines.map fun texts => lineOf texts ++ "\n")).toUTF8 := by
  induction lines generalizing sink with
  | nil => exact ByteArray.append_empty.symm
  | cons texts rest inductionHypothesis =>
      have stillUnlimited : (sink.take (lineBytes (lineOf texts))).room = none := by
        rw [take, unlimited]
      have others := inductionHypothesis stillUnlimited
      rw [written_take_of_unlimited unlimited, ByteArray.append_assoc] at others
      rw [List.map_cons, String.join_cons, String.toUTF8, String.toByteArray_append]
      exact others

/-- The text that a sink without limit has taken is that of all lines. -/
theorem text_takeLines
    (lines : List (List String)) :
    ((Sink.start none).takeLines lines).text =
      String.join (lines.map fun texts => lineOf texts ++ "\n") := by
  rw [text, written_takeLines rfl, start, ByteArray.empty_append, Text.ofBytes_toUTF8]

end Sink

namespace Outcome

/-- The lines of a sink without limit are the lines that it took, but for carriage returns. -/
theorem linesOf_takeLines
    {lines : List (List String)}
    (unbroken : ∀ texts ∈ lines, ∀ text ∈ texts, Text.IsUnbroken text) :
    linesOf ((Sink.start none).takeLines lines) =
      lines.map fun texts => String.ofList (Text.dropReturn (lineOf texts).toList) := by
  have endedLine (texts : List String) :
      (lineOf texts ++ "\n").toList = (lineOf texts).toList ++ ['\n'] := String.toList_append
  have characters :
      (String.join (lines.map fun texts => lineOf texts ++ "\n")).toList =
        (lines.map fun texts => (lineOf texts).toList).flatMap fun line => line ++ ['\n'] := by
    simp only [String.toList_join, List.flatMap_map, endedLine]
  have noLineFeed : ∀ line ∈ lines.map fun texts => (lineOf texts).toList, '\n' ∉ line := by
    intro line isLine
    obtain ⟨texts, isTexts, rfl⟩ := List.mem_map.mp isLine
    exact Text.IsUnbroken.intercalate (by decide) (unbroken texts isTexts)
  rw [linesOf, Sink.text_takeLines, characters, Text.lines_of_ended noLineFeed, List.map_map,
    List.map_map]
  rfl

end Outcome

namespace Program

/-- The lines of all print forms that a script executes on a new machine, in this order. -/
def printedOf (limits : Limits) (fuel : Nat) (source : String) : List (List String) :=
  match Node.ofSource source with
  | .error _ => []
  | .ok members => printed limits fuel members (Machine.start none)

/-- What a script prints is listed by the visits of its program. -/
theorem prints_run
    (limits : Limits)
    (fuel : Nat)
    (source : String) :
    (run limits fuel source).Prints (Machine.start none) (printedOf limits fuel source) := by
  unfold run printedOf
  cases Node.ofSource source with
  | error fault => exact .fail fault
  | ok members => exact prints_execute limits fuel members (Machine.start none)

/-- No text that a script prints has a line feed. -/
theorem unbroken_of_mem_printedOf
    (limits : Limits)
    (fuel : Nat)
    (source : String) :
    ∀ texts ∈ printedOf limits fuel source, ∀ text ∈ texts, Text.IsUnbroken text := by
  unfold printedOf
  cases read : Node.ofSource source with
  | error fault => nofun
  | ok members =>
      have goodMembers : ∀ member ∈ members, member.IsUnbroken :=
        Node.IsUnbroken.members (Node.readable_of_ofSource read).noLineFeed
      intro texts isPrinted text isText
      obtain ⟨machine, cell, ⟨-, unbroken⟩, -, rfl⟩ :=
        rendered_of_mem_printed custodyOfUnbroken limits fuel goodMembers
          ⟨.start none, Heap.IsUnbroken.empty⟩ texts isPrinted text isText
      exact unbroken.render (unbroken cell)

end Program

namespace Outcome

/--
The output of a script that ran to its end has one line for every print form that it
executed, in the order of execution: the printed texts of the operands with a space
between neighbours, less a carriage return at the very end.
-/
theorem output_eq_printed_lines
    {limits : Limits}
    {fuel : Nat}
    {source : String}
    {outcome : Outcome}
    (ran : ofSource? limits fuel source = some (.ok outcome)) :
    let printed := Program.printedOf limits fuel source
    (outcome.output =
        printed.map fun texts =>
          String.ofList (Text.dropReturn (String.intercalate " " texts).toList)) ∧
      ((∀ texts ∈ printed, (String.intercalate " " texts).toList.getLast? ≠ some '\r') →
        outcome.output = printed.map (String.intercalate " ")) := by
  intro printed
  have output : outcome.output =
      printed.map fun texts => String.ofList (Text.dropReturn (lineOf texts).toList) := by
    rw [ofSource?] at ran
    cases ended : Program.run limits fuel source (Machine.start none) with
    | done value after =>
        rw [ended] at ran
        cases ran
        have sink := Program.prints_run limits fuel source after (congrArg _ ended)
        show linesOf after.sink = _
        rw [sink]
        exact linesOf_takeLines (Program.unbroken_of_mem_printedOf limits fuel source)
    | left exit after =>
        rw [ended] at ran
        cases exit <;> cases ran
    | unfinished =>
        rw [ended] at ran
        cases ran
  refine ⟨output, fun noReturn => output.trans (List.map_congr_left fun texts isPrinted => ?_)⟩
  rw [lineOf, Text.dropReturn, if_neg (noReturn texts isPrinted), String.ofList_toList]

/-- A script whose lines of output are known has run to its end. -/
theorem exists_of_output
    {limits : Limits}
    {fuel : Nat}
    {source : String}
    {lines : List String}
    (known : (ofSource? limits fuel source).map (fun ended => ended.toOption.map output) =
      some (some lines)) :
    ∃ outcome, ofSource? limits fuel source = some (.ok outcome) ∧ outcome.output = lines := by
  obtain ⟨ended, ran, known⟩ := Option.map_eq_some_iff.mp known
  cases ended with
  | error fault => cases known
  | ok outcome => exact ⟨outcome, ran, Option.some.inj known⟩

/-- A line that is printed while the operands of a print form are evaluated comes first. -/
theorem output_of_print_within_print :
    let source := "(let f (fn (x) ((print x) (return x)))) (print (f 7) (list \"a b\" 1)) (print)"
    let printed := Program.printedOf .unlimited 9 source
    printed = [["7"], ["7", "[\"a b\", 1]"], []] ∧
      ∃ outcome,
        ofSource? .unlimited 9 source = some (.ok outcome) ∧
          outcome.output = ["7", "7 [\"a b\", 1]", ""] ∧
          (outcome.output =
            printed.map fun texts =>
              String.ofList (Text.dropReturn (String.intercalate " " texts).toList)) ∧
          (∀ texts ∈ printed, (String.intercalate " " texts).toList.getLast? ≠ some '\r') ∧
          outcome.output = printed.map (String.intercalate " ") := by
  intro source printed
  have isPrinted : printed = [["7"], ["7", "[\"a b\", 1]"], []] := by decide +kernel
  obtain ⟨outcome, ran, output⟩ : ∃ outcome,
      ofSource? .unlimited 9 source = some (.ok outcome) ∧
        outcome.output = ["7", "7 [\"a b\", 1]", ""] :=
    exists_of_output (by decide +kernel)
  obtain ⟨reported, kept⟩ := output_eq_printed_lines ran
  have noReturn : ∀ texts ∈ printed,
      (String.intercalate " " texts).toList.getLast? ≠ some '\r' := by
    rw [isPrinted]
    decide
  exact ⟨isPrinted, outcome, ran, output, reported, noReturn, kept noReturn⟩

/-- A carriage return that is printed last on a line is not reported. -/
theorem carriage_return_is_lost :
    ¬∀ (limits : Limits) (fuel : Nat) (source : String) (outcome : Outcome),
      ofSource? limits fuel source = some (.ok outcome) →
      outcome.output = (Program.printedOf limits fuel source).map (String.intercalate " ") := by
  intro claim
  let source := "(print \"a\r\")"
  have isPrinted : Program.printedOf .unlimited 4 source = [["a\r"]] := by decide +kernel
  obtain ⟨outcome, ran, output⟩ : ∃ outcome,
      ofSource? .unlimited 4 source = some (.ok outcome) ∧ outcome.output = ["a"] :=
    exists_of_output (by decide +kernel)
  have reported := claim .unlimited 4 source outcome ran
  rw [isPrinted, output] at reported
  exact absurd reported (by decide)

end Outcome

end CellScript
