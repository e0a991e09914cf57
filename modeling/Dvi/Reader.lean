/-
# Dvi.Reader — a stream as a sequence of commands.

A reader takes commands off a source one at a time and says at which offset each begins. It stops
after the end of the postamble, at the end of the input if that falls between two commands, and at
the first error. What follows the end of the postamble is not looked at.

A source is the bytes that it delivers and what happens after them: the input ends, or the source
fails. An input that ends inside a command is an error that names the command; a source that fails
there is reported as such. A byte that is no opcode, and a special of negative length, are errors of
the stream itself, and so the same for both.
-/
import Dvi.Command.Decoding
import Dvi.Sink
import Dvi.Text.Quoted

namespace Dvi

/-- Why reading stopped before the end of a stream. -/
inductive ReadError where
  | source (e : IoError)
  /-- The input ends inside the command that begins at the offset. -/
  | unexpectedEnd (opcode : UInt8) (offset : Nat)
  | undefinedOpcode (opcode : UInt8) (offset : Nat)
deriving DecidableEq

/-- What a read error is reported as. -/
def ReadError.message : ReadError → String
  | source e => s!"could not read dvi stream: {e.text}"
  | unexpectedEnd opcode offset =>
    let octet := String.ofList (Quoted.hexOctet opcode)
    s!"stream ends inside command 0x{octet} at offset {offset}"
  | undefinedOpcode opcode offset =>
    let octet := String.ofList (Quoted.hexOctet opcode)
    s!"undefined opcode 0x{octet} at offset {offset}"

/-- A reader in the middle of a stream. -/
structure Reader where
  /-- The bytes still to be delivered, and the offset of the first. -/
  cursor : Cursor
  /-- How the source fails once it has delivered all bytes, if it does. -/
  failure : Option IoError := none
  /-- Nothing more will be read. -/
  done : Bool := false

/-- A command in a stream. -/
structure Entry where
  /-- The offset of the opcode. -/
  start : Nat
  /-- The offset after the last operand. -/
  stop : Nat
  command : Command
deriving DecidableEq

namespace Reader

/-- A reader at the start of a source. -/
def ofBytes (octets : Bytes) (failure : Option IoError := none) : Reader :=
  { cursor := ⟨0, octets⟩, failure }

/-- The offset of the next byte. -/
def offset (reader : Reader) : Nat :=
  reader.cursor.offset

/-- The reader after it stopped at a place. -/
def stopAt (reader : Reader) (cursor : Cursor) : Reader :=
  { reader with cursor, done := true }

/-- How a command that begins at `start` fails for want of bytes, and where the reader stands then.
A source that fails inside a counted string leaves the offset before it; an input that ends there
leaves the offset at the end of the input. -/
def onShortage (reader : Reader) (opcode : UInt8) (start : Nat) :
    Shortage → ReadError × Cursor
  | .endless after => (.unexpectedEnd opcode start, after)
  | .field place =>
    match reader.failure with
    | some e => (.source e, place)
    | none => (.unexpectedEnd opcode start, place)
  | .counted place =>
    match reader.failure with
    | some e => (.source e, place)
    | none => (.unexpectedEnd opcode start, place.advance place.rest.length)

/-- The next command, or the error in its place, or nothing at the end of the stream. -/
def next (reader : Reader) : Option (Except ReadError Entry) × Reader :=
  if reader.done then (none, reader)
  else match reader.cursor.rest with
    | [] =>
      let stopped := reader.stopAt reader.cursor
      match reader.failure with
      | some e => (some (.error (.source e)), stopped)
      | none => (none, stopped)
    | b :: rest =>
      let start := reader.offset
      let cursor : Cursor := ⟨start + 1, rest⟩
      match Opcode.ofByte? b with
      | none => (some (.error (.undefinedOpcode b start)), reader.stopAt cursor)
      | some op =>
        match Command.decode op cursor with
        | .ok (command, cursor) =>
          let entry : Entry := { start, stop := cursor.offset, command }
          (some (.ok entry), { reader with cursor, done := op == .postPost })
        | .error shortage =>
          let (e, cursor) := reader.onShortage b start shortage
          (some (.error e), reader.stopAt cursor)

/-- A command is never empty: reading one leaves fewer bytes. -/
theorem length_rest_next_lt {reader after : Reader} {entry : Entry}
    (h : reader.next = (some (.ok entry), after)) :
    after.cursor.rest.length < reader.cursor.rest.length := by
  unfold next at h
  split at h
  · cases h
  · split at h
    · dsimp only at h
      split at h <;> cases h
    · next b rest bytes =>
      dsimp only at h
      split at h
      · cases h
      · split at h
        · next decoded =>
          cases h
          have := Command.length_rest_le decoded
          simp only [bytes, List.length_cons]
          exact Nat.lt_succ_of_le this
        · cases h

/-- All that a reader gives: the commands in order, the error that ended them, and the reader after
the end. -/
structure Reading where
  entries : List Entry
  error? : Option ReadError
  reader : Reader

/-- Reads on to the end. `seen` holds the commands already read, newest first. -/
def readAfter (seen : List Entry) (reader : Reader) : Reading :=
  match h : reader.next with
  | (some (.ok entry), after) =>
    have := length_rest_next_lt h
    readAfter (entry :: seen) after
  | (some (.error e), after) => ⟨seen.reverse, some e, after⟩
  | (none, after) => ⟨seen.reverse, none, after⟩
termination_by reader.cursor.rest.length

/-- Reads a stream to its end. -/
def readAll (reader : Reader) : Reading :=
  readAfter [] reader

end Reader

end Dvi
