import CellScript.Text.Utf8

namespace CellScript

/-!
# Sinks

A sink keeps the bytes that are printed.  It may have room for a limited number
of bytes only; when a text needs more than that, the bytes that still fit are
kept and the sink refuses the rest.
-/

/-- What was printed, and how many more bytes are taken. -/
structure Sink where
  written : ByteArray
  /-- The number of bytes that are still taken; without one there is no limit. -/
  room : Option Nat

namespace Sink

/-- A sink that has taken nothing yet. -/
def start (room : Option Nat) : Sink :=
  { written := ByteArray.empty, room }

/-- A sink has room for a number of bytes. -/
def fits (sink : Sink) (size : Nat) : Bool :=
  sink.room.all (size ≤ ·)

/-- Take the bytes for which there is room. -/
def take (sink : Sink) (bytes : ByteArray) : Sink :=
  match sink.room with
  | none => { sink with written := sink.written ++ bytes }
  | some room =>
      { written := sink.written ++ bytes.extract 0 room
        room := some (room - bytes.size) }

/-- The bytes of a printed line: its text and a line feed. -/
def lineBytes (line : String) : ByteArray :=
  (line ++ "\n").toUTF8

/-- The text that the bytes from a position on hold. -/
def textFrom (sink : Sink) (position : Nat) : String :=
  Text.ofBytes (sink.written.extract position sink.written.size)

/-- All that was printed, as text. -/
def text (sink : Sink) : String :=
  Text.ofBytes sink.written

/-- Without a limit all bytes are kept. -/
theorem written_take_of_unlimited
    {sink : Sink}
    (unlimited : sink.room = none)
    (bytes : ByteArray) :
    (sink.take bytes).written = sink.written ++ bytes := by
  simp [take, unlimited]

end Sink

end CellScript
