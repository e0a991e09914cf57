/-
# Dvi.Writer.Buffer — a stream seen through a buffer of two halves.

A buffer holds the end of a stream. It is divided into two halves, and one half is handed to the
sink whenever filling reaches the `limit`; the other half stays, so the last bytes written can still
be taken back. `ptr` is the cell that the next byte goes to and `offset` is the position of cell 0,
so that `offset + ptr` is the position of the next byte in the whole stream.

* With the limit at the end of the buffer, the lower half is the older one. Reaching the limit hands
  the lower half on and starts again at cell 0, with the limit at the middle.
* With the limit at the middle, the upper half is the older one. Reaching the limit hands the upper
  half on and moves the limit to the end.

One cell past the end is never filled.
-/
import Dvi.BigEndian

namespace Dvi

/-- The size of a buffer: two halves of at least four bytes. -/
structure BufferSize where
  half : Nat
  four_le_half : 4 ≤ half

namespace BufferSize

/-- The number of bytes that a buffer holds. -/
def bytes (size : BufferSize) : Nat :=
  2 * size.half

/-- The size with a number of bytes, which must be even and at least eight. -/
def ofBytes? (n : Nat) : Option BufferSize :=
  if h : 8 ≤ n ∧ n % 2 = 0 then some ⟨n / 2, by omega⟩ else none

/-- The size of a buffer when none is asked for. -/
def standard : BufferSize :=
  ⟨8192, by decide⟩

theorem bytes_of_ofBytes? {n : Nat} {size : BufferSize} (h : ofBytes? n = some size) :
    size.bytes = n := by
  unfold ofBytes? at h
  split at h
  · cases h
    simp only [bytes]
    omega
  · cases h

/-- The sizes that are refused are the odd ones and those below eight. -/
theorem ofBytes?_eq_none_iff (n : Nat) : ofBytes? n = none ↔ n < 8 ∨ n % 2 = 1 := by
  unfold ofBytes?
  split
  · simp; omega
  · simp; omega

end BufferSize

/-- The end of a stream in a buffer of two halves. -/
structure Buffer where
  size : BufferSize
  cells : Array UInt8
  /-- The cell at which a half is handed on. -/
  limit : Nat
  /-- The cell of the next byte. -/
  ptr : Nat
  /-- The position of cell 0 in the stream. -/
  offset : Nat
  /-- The number of bytes handed on. -/
  gone : Nat

namespace Buffer

/-- The buffer of an empty stream. -/
def empty (size : BufferSize) : Buffer where
  size
  cells := Array.replicate (size.bytes + 1) 0
  limit := size.bytes
  ptr := 0
  offset := 0
  gone := 0

/-- The position of the next byte in the stream. -/
def pos (buffer : Buffer) : Nat :=
  buffer.offset + buffer.ptr

/-- Fills the next cell. -/
def store (b : UInt8) (buffer : Buffer) : Buffer :=
  { buffer with
    cells := buffer.cells.setIfInBounds buffer.ptr b
    ptr := buffer.ptr + 1 }

/-- Takes the last byte back. -/
def unstore (buffer : Buffer) : Buffer :=
  { buffer with ptr := buffer.ptr - 1 }

/-- The last byte, unless it was stored before the buffer last started at cell 0. -/
def last? (buffer : Buffer) : Option UInt8 :=
  match buffer.ptr with
  | 0 => none
  | last + 1 => buffer.cells[last]?

/-- The bytes in a range of cells. -/
def slice (buffer : Buffer) (start stop : Nat) : Bytes :=
  (buffer.cells.extract start stop).toList

/-- The lower half. -/
def lower (buffer : Buffer) : Bytes :=
  buffer.slice 0 buffer.size.half

/-- The upper half. -/
def upper (buffer : Buffer) : Bytes :=
  buffer.slice buffer.size.half buffer.size.bytes

/-- The bytes still to be handed on that were stored before the buffer last started at cell 0. While
the limit is at the end of the buffer there are none: the upper half went before the limit rose. -/
def older (buffer : Buffer) : Bytes :=
  if buffer.limit = buffer.size.half then buffer.upper else []

/-- The bytes stored since the buffer last started at cell 0. -/
def newer (buffer : Buffer) : Bytes :=
  buffer.slice 0 buffer.ptr

/-- The bytes that are still to be handed on, in stream order. -/
def pending (buffer : Buffer) : Bytes :=
  buffer.older ++ buffer.newer

/-- The buffer after the lower half was handed on because the end was reached. -/
def startOver (buffer : Buffer) : Buffer :=
  { buffer with
    limit := buffer.size.half
    ptr := 0
    offset := buffer.offset + buffer.size.bytes
    gone := buffer.gone + buffer.size.half }

/-- The buffer after the upper half was handed on because the middle was reached. -/
def goOn (buffer : Buffer) : Buffer :=
  { buffer with
    limit := buffer.size.bytes
    gone := buffer.gone + buffer.size.half }

/-- The buffer after `n` more bytes were handed on at the end of a session. -/
def handOn (n : Nat) (buffer : Buffer) : Buffer :=
  { buffer with gone := buffer.gone + n }

end Buffer

end Dvi
