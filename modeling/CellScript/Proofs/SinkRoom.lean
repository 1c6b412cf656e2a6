import CellScript.Proofs.Fuel

namespace CellScript

/-!
# Room in the sink

A sink with little room keeps what fits of every write and refuses the rest.  A
line is two writes, its text and a line feed, but they come to the same as one.  So
a run that prints into such a sink is in step with the run that prints into one
without limit, until a line does not fit.  Then the first run fails, and no form on
the way out prints anything more.
-/

/-! ## Writing in pieces -/

namespace Sink

/-- Bytes are all kept if they fit. -/
theorem extract_of_size_le
    {bytes : ByteArray}
    {room : Nat}
    (fits : bytes.size ≤ room) :
    bytes.extract 0 room = bytes := by
  have all := bytes.extract_zero_max_size (i := room)
  rwa [Nat.max_eq_left fits] at all

/-- What is kept of two texts in turn. -/
theorem extract_append
    (first second : ByteArray)
    (room : Nat) :
    (first ++ second).extract 0 room =
      first.extract 0 room ++ second.extract 0 (room - first.size) := by
  rw [ByteArray.extract_append, Nat.zero_sub]

theorem fits_append
    (sink : Sink)
    (first second : ByteArray) :
    sink.fits (first ++ second).size =
      (sink.fits first.size && (sink.take first).fits second.size) := by
  cases room : sink.room with
  | none => simp [fits, take, room]
  | some limit =>
      simp only [fits, take, room, Option.all_some, ByteArray.size_append,
        ← Bool.decide_and]
      exact decide_eq_decide.mpr (by omega)

/-- Behind a piece that fits, the next one is taken as if it came by itself. -/
theorem take_append_of_fits
    {sink : Sink}
    {first : ByteArray}
    (fits : sink.fits first.size = true)
    (second : ByteArray) :
    sink.take (first ++ second) = (sink.take first).take second := by
  cases room : sink.room with
  | none => simp [take, room, ByteArray.append_assoc]
  | some limit =>
      have within : first.size ≤ limit := by simpa [Sink.fits, room] using fits
      simp only [take, room, extract_append, extract_of_size_le within,
        ByteArray.append_assoc, ByteArray.size_append, Nat.sub_sub]

/-- Behind a piece that does not fit, there is no room for the next one. -/
theorem take_append_of_not_fits
    {sink : Sink}
    {first : ByteArray}
    (exceeds : sink.fits first.size = false)
    (second : ByteArray) :
    sink.take (first ++ second) = sink.take first := by
  cases room : sink.room with
  | none => simp [fits, room] at exceeds
  | some limit =>
      have within : limit ≤ first.size := by
        have : limit < first.size := by simpa [Sink.fits, room] using exceeds
        omega
      have nothing : limit - (first.size + second.size) = limit - first.size := by omega
      simp only [take, room, extract_append, Nat.sub_eq_zero_of_le within,
        ByteArray.extract_same, ByteArray.append_empty, ByteArray.size_append, nothing]

end Sink

namespace Action

/-- Write bytes to the sink; what does not fit into it makes writing fail. -/
def emit (bytes : ByteArray) : Action Unit :=
  fun machine =>
    let written := { machine with sink := machine.sink.take bytes }
    if machine.sink.fits bytes.size then
      .done () written
    else
      .left (.failing Fault.sinkFull) written

/-- A write of no bytes never fails. -/
theorem emit_empty :
    emit ByteArray.empty = pure () := by
  funext machine
  obtain ⟨heap, frames, written, room⟩ := machine
  cases room with
  | none => simp [emit, Sink.fits, Sink.take]
  | some room =>
      have nothing : ByteArray.empty.extract 0 room = ByteArray.empty :=
        Sink.extract_of_size_le (Nat.zero_le room)
      simp [emit, Sink.fits, Sink.take, nothing]

/-- Writing bytes at once is the same as writing them in two pieces. -/
theorem emit_append
    (first second : ByteArray) :
    emit (first ++ second) = (do emit first; emit second) := by
  funext machine
  simp only [emit, bind_apply, Sink.fits_append]
  cases fits : machine.sink.fits first.size with
  | true => simp [Sink.take_append_of_fits fits]
  | false => simp [Sink.take_append_of_not_fits fits]

/-- A line is printed by two writes, one of its text and one of the line feed. -/
theorem printLine_eq_emit
    (line : String) :
    printLine line = (do emit line.toUTF8; emit "\n".toUTF8) := by
  rw [← emit_append]
  exact congrArg emit String.toByteArray_append

end Action

/-! ## Runs with little room -/

namespace Machine

/-- A machine whose sink takes no more than a number of bytes from now on. -/
def withRoom (machine : Machine) (room : Nat) : Machine :=
  { machine with sink := { machine.sink with room := some room } }

end Machine

/-- Two runs that differ in the room that their sinks have, up to a total of bytes. -/
def Pairing.roomier (limits : Limits) (total : Nat) : Pairing where
  first := limits
  second := limits
  earlier := Heap.empty
  sinks sink other :=
    other = { sink with room := none } ∧ ∃ room, sink.room = some room ∧
      sink.written.size + room = total
  lags := False
  stops fault := fault = .sinkFull
  beyond sink other :=
    total < other.written.size ∧ sink.written = other.written.extract 0 total

namespace Pairing.roomier

variable {limits : Limits} {total : Nat}

/-- A full sink is the only fault by which the run with less room may stop alone. -/
theorem lawful :
    (Pairing.roomier limits total).Lawful where
  caps := Limits.AtMost.refl limits
  cuts isLimit notLimit _ := absurd isLimit notLimit
  prints := by
    rintro ⟨written, _⟩ _ bytes ⟨rfl, room, rfl, rfl⟩
    by_cases fits : bytes.size ≤ room
    · left
      refine ⟨by simp [Sink.fits, fits], ?_, room - bytes.size, rfl, ?_⟩
      · simp only [Sink.take, Sink.extract_of_size_le fits]
      · simp only [Sink.take, Sink.extract_of_size_le fits, ByteArray.size_append]
        omega
    · right
      refine ⟨by simp [Sink.fits, fits], rfl, ?_, ?_⟩
      · simp only [Sink.take, ByteArray.size_append]
        omega
      · have kept : written.extract 0 (written.size + room) = written :=
          Sink.extract_of_size_le (Nat.le_add_right _ _)
        simp only [Sink.take, Sink.extract_append, kept, Nat.add_sub_cancel_left]
  goesOn := by
    rintro sink between other ⟨exceeds, written⟩ ⟨more, later⟩
    refine ⟨?_, ?_⟩
    · rw [later, ByteArray.size_append]
      omega
    · rw [later, Sink.extract_append, Nat.sub_eq_zero_of_le (Nat.le_of_lt exceeds),
        ByteArray.extract_same, ByteArray.append_empty, written]
  plain _ := rfl

/-- At the start the total is what was written before together with the room. -/
theorem paired_withRoom
    {machine : Machine}
    (unlimited : machine.sink.room = none)
    (room : Nat) :
    (Pairing.roomier limits (machine.sink.written.size + room)).Paired
      (machine.withRoom room) machine := by
  refine (Pairing.paired_iff_of_plain rfl).mpr ⟨rfl, rfl, ?_, room, rfl, rfl⟩
  rw [Machine.withRoom, ← unlimited]

/-- While the runs are in step, the first one has the room that is left. -/
theorem eq_withRoom
    {machine other : Machine}
    (paired : (Pairing.roomier limits total).Paired machine other) :
    machine = other.withRoom (total - other.sink.written.size) ∧
      other.sink.written.size ≤ total := by
  obtain ⟨heap, frames, sink, room, isRoom, sum⟩ :=
    (Pairing.paired_iff_of_plain rfl).mp paired
  obtain ⟨machineHeap, machineFrames, written, machineRoom⟩ := machine
  obtain ⟨otherHeap, otherFrames, otherSink⟩ := other
  cases heap
  cases frames
  cases sink
  cases isRoom
  obtain rfl : room = total - written.size := Nat.eq_sub_of_add_eq' sum
  exact ⟨rfl, Nat.le.intro sum⟩

end Pairing.roomier

/-- With too little room a run fails; with enough room it ends as it does without limit. -/
theorem Ending.InStep.of_roomier
    {limits : Limits}
    {total : Nat}
    {ending second : Ending Value}
    {final : Machine}
    (inStep : ending.InStep (Pairing.roomier limits total) second)
    (leaves : second.machine? = some final) :
    (final.sink.written.size ≤ total ∧
        ending = second.onMachine fun _ => final.withRoom (total - final.sink.written.size)) ∨
      (total < final.sink.written.size ∧
        ∃ after,
          ending = .left (.failing .sinkFull) after ∧
            after.sink.written = final.sink.written.extract 0 total) := by
  cases inStep with
  | done paired =>
      cases leaves
      obtain ⟨same, within⟩ := Pairing.roomier.eq_withRoom paired
      rw [same]
      exact .inl ⟨within, congrArg (Ending.done · _) (relocate_zero _).symm⟩
  | left paired =>
      cases leaves
      obtain ⟨same, within⟩ := Pairing.roomier.eq_withRoom paired
      rw [same]
      exact .inl ⟨within, congrArg (Ending.left · _) (relocate_zero _).symm⟩
  | unfinished both =>
      rcases both with ⟨⟨⟩⟩ | unfinished
      rw [unfinished] at leaves
      cases leaves
  | stopped stops goneOn =>
      obtain rfl := stops
      obtain ⟨exceeds, written⟩ := goneOn final leaves
      exact .inr ⟨exceeds, _, rfl, written⟩

namespace Program

/--
A sink that fills up has taken exactly the first bytes of what is printed.  If all
of it fits, a run ends as it does without a limit; otherwise it fails at the line
that does not fit, and its frames are what they were.
-/
theorem limited_sink_keeps_prefix
    {limits : Limits}
    {members : List Node}
    {machine : Machine}
    {ending : Ending Value}
    (unlimited : machine.sink.room = none)
    (ends : EndsWith limits members machine ending) :
    ∃ final output,
      ending.machine? = some final ∧
      final.sink.written = machine.sink.written ++ output ∧
      ∀ room,
        (output.size ≤ room →
          EndsWith limits members (machine.withRoom room)
            (ending.onMachine fun _ => final.withRoom (room - output.size))) ∧
        (room < output.size →
          ∃ after,
            EndsWith limits members (machine.withRoom room)
              (.left (.failing .sinkFull) after) ∧
            after.sink.written = machine.sink.written ++ output.extract 0 room ∧
            after.frames = machine.frames) := by
  obtain ⟨final, leaves, output, written⟩ := ends.machine?
  obtain ⟨finished, fuel, ended⟩ := ends
  refine ⟨final, output, leaves, written, fun room => ?_⟩
  have inStep :
      (execute limits fuel members (machine.withRoom room)).InStep
        (Pairing.roomier limits (machine.sink.written.size + room))
        (execute limits fuel members machine) :=
    (Pairing.roomier.lawful.execute (Nat.le_refl fuel) (.inr rfl) members).runs
      (Pairing.roomier.paired_withRoom unlimited room)
  rw [ended] at inStep
  -- The sinks are compared from their beginnings, the room counts from the start of the run.
  have reached := inStep.of_roomier leaves
  rw [written, ByteArray.size_append, Nat.add_le_add_iff_left, Nat.add_lt_add_iff_left,
    Nat.add_sub_add_left] at reached
  rcases reached with ⟨within, limited⟩ | ⟨exceeds, after, limited, kept⟩
  · have notExceeded := Nat.not_lt.mpr within
    refine ⟨fun _ => ⟨?_, fuel, limited⟩, fun exceeds => absurd exceeds notExceeded⟩
    cases ending with
    | done | left => simp [Ending.onMachine]
    | unfinished => exact absurd rfl finished
  · refine ⟨fun within => absurd exceeds (Nat.not_lt.mpr within), fun _ => ?_⟩
    refine ⟨after, .of_left fuel limited, ?_, ?_⟩
    · rw [kept, Sink.extract_append, Nat.add_sub_cancel_left,
        Sink.extract_of_size_le (Nat.le_add_right _ _)]
    · have same : after.frames = (machine.withRoom room).frames :=
        frames_of_execute (congrArg Ending.machine? limited)
      exact same

/-- A line of four bytes is cut off after two where there is room for no more. -/
theorem sink_with_room_for_two_bytes_keeps_two :
    let members := [Node.form "print" [.leaf (.text "abc")]]
    (Machine.start none).sink.room = none ∧
      ∃ final,
        EndsWith .unlimited members (Machine.start none) (.done .none final) ∧
        final.sink.written = "abc\n".toUTF8 ∧
        ∃ after,
          EndsWith .unlimited members ((Machine.start none).withRoom 2)
            (.left (.failing .sinkFull) after) ∧
          after.sink.written = "ab".toUTF8 ∧
          after.frames = FrameStack.global := by
  intro members
  have ends : EndsWith .unlimited members (Machine.start none) (.done .none _) :=
    .of_done 3 rfl
  obtain ⟨final, output, leaves, written, limited⟩ := limited_sink_keeps_prefix rfl ends
  cases leaves
  obtain rfl : output = "abc\n".toUTF8 := ByteArray.empty_append.symm.trans written.symm
  obtain ⟨after, fails, kept, frames⟩ := (limited 2).2 (by decide)
  exact ⟨rfl, _, ends, rfl, after, fails, kept.trans ByteArray.empty_append, frames⟩

end Program

end CellScript
