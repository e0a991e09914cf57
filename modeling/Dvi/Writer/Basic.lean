/-
# Dvi.Writer.Basic — writing bytes to a sink through a buffer.

A writer is a buffer, the sink behind it and a cache of what its user wants to remember between
commands: the number of pages, the current font and the position on the page. `emit` adds a byte to
the stream and `finish` hands over whatever the buffer still holds.

An operation that fails keeps the state it had reached. When the sink fails, the byte that filled
the half has been stored and counted, and the half has not been counted as handed on.
-/
import Dvi.Command.Encoding
import Dvi.Sink
import Dvi.Writer.Buffer

namespace Dvi

/-- Why an operation of a writer failed. -/
inductive WriteError where
  /-- The sink failed. A session cannot go on from here. -/
  | sink (e : IoError)
  | violation (v : Violation)
  /-- No buffer of this size has two equal halves of at least four bytes. -/
  | bufferSize (size : Nat)
deriving DecidableEq

/-- What a write error is reported as. -/
def WriteError.message : WriteError → String
  | sink e => s!"dvi sink error: {e.text}"
  | violation v => s!"protocol violation: {v.message}"
  | bufferSize size => s!"invalid buffer size {size}: must be even and at least 8"

/-- Whether an error ends the session: after the sink has failed, what it took is not known to be a
whole number of halves. -/
def WriteError.isFatal : WriteError → Bool
  | sink _ => true
  | _ => false

/-- What a writer remembers for its user. -/
structure Cache where
  pages : Nat := 0
  font : Option UInt32 := none
  h : Int32 := 0
  v : Int32 := 0
deriving DecidableEq

/-- A session that writes a stream to a sink. -/
structure Writer where
  buffer : Buffer
  cache : Cache := {}
  sink : Sink

/-- An operation of a writer. -/
abbrev WriteM := EStateM WriteError Writer

namespace Writer

/-- A new session with a buffer of a given size. -/
def new (sink : Sink) (size : BufferSize := .standard) : Writer :=
  { buffer := .empty size, sink }

/-- A new session with a buffer of a number of bytes. -/
def ofSize (sink : Sink) (bytes : Nat) : Except WriteError Writer :=
  match BufferSize.ofBytes? bytes with
  | some size => .ok (new sink size)
  | none => .error (.bufferSize bytes)

/-- A new session on a file, from the answer to opening it. -/
def onFile : Except IoError Sink → Except WriteError Writer
  | .ok sink => .ok (new sink)
  | .error e => .error (.sink e)

/-- The position of the next byte. -/
def pos (writer : Writer) : Nat :=
  writer.buffer.pos

/-- Changes the buffer. -/
def modifyBuffer (f : Buffer → Buffer) : WriteM Unit :=
  modify fun ⟨buffer, cache, sink⟩ => ⟨f buffer, cache, sink⟩

/-- Changes the cache. -/
def modifyCache (f : Cache → Cache) : WriteM Unit :=
  modify fun ⟨buffer, cache, sink⟩ => ⟨buffer, f cache, sink⟩

/-- Hands bytes to the sink. -/
def deliver (octets : Bytes) : WriteM Unit
  | ⟨buffer, cache, sink⟩ =>
    match sink.writeAll octets with
    | (none, sink) => .ok () ⟨buffer, cache, sink⟩
    | (some e, sink) => .error (.sink e) ⟨buffer, cache, sink⟩

/-- Hands the older half to the sink, once the limit is reached. -/
def swap : WriteM Unit := do
  let buffer := (← get).buffer
  if buffer.limit = buffer.size.bytes then
    deliver buffer.lower
    modifyBuffer Buffer.startOver
  else
    deliver buffer.upper
    modifyBuffer Buffer.goOn

/-- Adds a byte to the stream. -/
def emit (b : UInt8) : WriteM Unit := do
  modifyBuffer (Buffer.store b)
  if (← get).buffer.ptr = (← get).buffer.limit then
    swap

/-- Adds bytes to the stream one by one, up to the first failure. -/
def emitAll (octets : Bytes) : WriteM Unit :=
  octets.forM emit

/-- Hands over what the buffer holds, the older bytes first. -/
def drain : WriteM Unit := do
  let buffer := (← get).buffer
  deliver buffer.older
  modifyBuffer (Buffer.handOn buffer.older.length)
  deliver buffer.newer
  modifyBuffer (Buffer.handOn buffer.newer.length)

/-- Flushes the sink. -/
def flushSink : WriteM Unit
  | ⟨buffer, cache, sink⟩ =>
    match sink.flush with
    | (none, sink) => .ok () ⟨buffer, cache, sink⟩
    | (some e, sink) => .error (.sink e) ⟨buffer, cache, sink⟩

/-- Ends the session: all bytes are handed over and the sink is flushed. -/
def finish : WriteM Unit := do
  drain
  flushSink

/-- The cursors and the cache of a writer in one line. -/
def describe (writer : Writer) : String :=
  let { size, limit, ptr, offset, gone, .. } := writer.buffer
  let { pages, font, h, v } := writer.cache
  let current := match font with
    | some number => s!"Some({number})"
    | none => "None"
  "DviWriter \x7b " ++ s!"buffer_size: {size.bytes}, limit: {limit}, ptr: {ptr}, "
    ++ s!"offset: {offset}, gone: {gone}, total_pages: {pages}, font: {current}, "
    ++ s!"h: {h}, v: {v}, .. " ++ "\x7d"

end Writer

end Dvi
