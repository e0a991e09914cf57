/-
# Dvi.Sink — where bytes go.

A sink is asked to take bytes and answers how many of them it took, or that it failed. How it
answers is a parameter of the sink, which may look at all that it has taken so far, so a `Sink` can
stand for a full disk, a slow pipe or memory. `writeAll` asks again until everything has been taken,
and gives up when the sink fails or takes nothing.

A sink records what it took in order (`octets`), how much of it each request brought (`chunks`), and
how often it was flushed. Bytes that were taken are never given back.
-/
import Dvi.BigEndian

namespace Dvi

/-- A failure of the system that bytes come from or go to, with its description. -/
structure IoError where
  text : String
deriving DecidableEq

namespace IoError

/-- A sink that takes nothing although it was offered something. -/
def nothingTaken : IoError :=
  ⟨"failed to write whole buffer"⟩

/-- A file that is not there. -/
def notFound : IoError :=
  ⟨"No such file or directory (os error 2)"⟩

end IoError

/-- What a sink has been given so far. -/
structure Sink.Record where
  /-- The bytes taken, in order. -/
  octets : Array UInt8 := #[]
  /-- The number of bytes of each request that brought some, in order. -/
  chunks : Array Nat := #[]
  /-- How often the sink was flushed. -/
  flushes : Nat := 0
deriving DecidableEq

/-- How a sink answers a request. -/
inductive Sink.Reply where
  /-- It takes this many bytes from the front, or all of them if there are fewer. -/
  | takes (n : Nat)
  | fails (e : IoError)

/-- A place where bytes go. -/
structure Sink where
  /-- The answer to a request, from what was taken before and the bytes offered. -/
  onWrite : Sink.Record → Bytes → Sink.Reply
  /-- How a flush fails, if it does. -/
  onFlush : Sink.Record → Option IoError
  record : Sink.Record := {}

namespace Sink

/-- The record after a request brought `chunk`. -/
def Record.take (record : Record) (chunk : Bytes) : Record :=
  { record with
    octets := record.octets ++ chunk
    chunks := record.chunks.push chunk.length }

/-- Offers bytes until all are taken, the sink fails or it takes nothing. -/
def offer (onWrite : Record → Bytes → Reply) (record : Record) : Bytes → Option IoError × Record
  | [] => (none, record)
  | b :: rest =>
    match onWrite record (b :: rest) with
    | .fails e => (some e, record)
    | .takes 0 => (some .nothingTaken, record)
    | .takes (n + 1) =>
      offer onWrite (record.take (b :: rest.take n)) (rest.drop n)
termination_by octets => octets.length
decreasing_by simp only [List.length_drop, List.length_cons]; omega

/-- Gives bytes to a sink. On failure the sink may have taken some of them. -/
def writeAll (octets : Bytes) : Sink → Option IoError × Sink
  | ⟨onWrite, onFlush, record⟩ =>
    let (failure, record) := offer onWrite record octets
    (failure, ⟨onWrite, onFlush, record⟩)

/-- Asks a sink to pass on what it took. -/
def flush (sink : Sink) : Option IoError × Sink :=
  match sink.onFlush sink.record with
  | some e => (some e, sink)
  | none => (none, { sink with record.flushes := sink.record.flushes + 1 })

/-- A sink that takes everything. -/
def unbounded : Sink where
  onWrite _ octets := .takes octets.length
  onFlush _ := none

/-- What a sink with room for `capacity` bytes takes; `whenFull` is how it answers once the room is
used up. -/
def fillUp (capacity : Nat) (whenFull : Reply) (record : Record) (octets : Bytes) : Reply :=
  match min octets.length (capacity - record.octets.size) with
  | 0 => whenFull
  | n + 1 => .takes (n + 1)

/-- A sink with room for `capacity` bytes, which fails when it is full. -/
def bounded (capacity : Nat) : Sink :=
  { unbounded with onWrite := fillUp capacity (.fails ⟨"sink full"⟩) }

/-- A sink with room for `capacity` bytes, which takes nothing when it is full. -/
def stopping (capacity : Nat) : Sink :=
  { unbounded with onWrite := fillUp capacity (.takes 0) }

/-- The same sink, except that it cannot be flushed. -/
def withoutFlush (sink : Sink) : Sink :=
  { sink with onFlush := fun _ => some ⟨"flush failed"⟩ }

end Sink

end Dvi
