namespace CellScript.Text

/-!
# Reading bytes as text

Bytes are read as UTF-8 without ever failing: each longest run of bytes that
starts an encoded character and cannot be continued, and each byte that starts
none, reads as one replacement character.
-/

/-- The character that stands for bytes that encode none. -/
def replacement : Char := '\uFFFD'

/-- An encoded character whose last bytes are still to come. -/
structure Unfinished where
  /-- The number of bytes still to come. -/
  owed : Nat
  /-- The least value the next byte may have. -/
  low : Nat
  /-- The greatest value the next byte may have. -/
  high : Nat
  /-- The code point's bits read so far. -/
  code : Nat
  deriving Repr, DecidableEq

/-- What the first byte of a character leaves to be read, if it can be a first byte. -/
def Unfinished.ofLead? (byte : Nat) : Option Unfinished :=
  if 0xC2 ≤ byte ∧ byte ≤ 0xDF then some ⟨1, 0x80, 0xBF, byte - 0xC0⟩
  else if byte = 0xE0 then some ⟨2, 0xA0, 0xBF, byte - 0xE0⟩
  else if byte = 0xED then some ⟨2, 0x80, 0x9F, byte - 0xE0⟩
  else if 0xE1 ≤ byte ∧ byte ≤ 0xEF then some ⟨2, 0x80, 0xBF, byte - 0xE0⟩
  else if byte = 0xF0 then some ⟨3, 0x90, 0xBF, byte - 0xF0⟩
  else if 0xF1 ≤ byte ∧ byte ≤ 0xF3 then some ⟨3, 0x80, 0xBF, byte - 0xF0⟩
  else if byte = 0xF4 then some ⟨3, 0x80, 0x8F, byte - 0xF0⟩
  else none

/-- Read a byte between characters: the characters it completes and what it leaves open. -/
def readLead (byte : Nat) : List Char × Option Unfinished :=
  if byte < 0x80 then
    ([Char.ofNat byte], none)
  else
    match Unfinished.ofLead? byte with
    | some unfinished => ([], some unfinished)
    | none => ([replacement], none)

/-- Read one byte after whatever is still open. -/
def readByte : Option Unfinished → Nat → List Char × Option Unfinished
  | none, byte => readLead byte
  | some unfinished, byte =>
      if unfinished.low ≤ byte ∧ byte ≤ unfinished.high then
        let code := unfinished.code * 64 + (byte - 0x80)
        if unfinished.owed ≤ 1 then
          ([Char.ofNat code], none)
        else
          ([], some ⟨unfinished.owed - 1, 0x80, 0xBF, code⟩)
      else
        let (characters, next) := readLead byte
        (replacement :: characters, next)

/-- Read the rest of the bytes after whatever is still open. -/
def readBytes : Option Unfinished → List UInt8 → List Char
  | none, [] => []
  | some _, [] => [replacement]
  | unfinished, byte :: rest =>
      let (characters, next) := readByte unfinished byte.toNat
      characters ++ readBytes next rest

/-- The text that bytes hold, with replacement characters where they hold none. -/
def ofBytes (bytes : ByteArray) : String :=
  String.ofList (readBytes none bytes.data.toList)

end CellScript.Text
