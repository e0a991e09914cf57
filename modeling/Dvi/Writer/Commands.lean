/-
# Dvi.Writer.Commands — writing commands.

`command` writes any command as it is described. The other operations choose the shortest member of
a family for the number they are given, and keep the cache in step with what they write: a movement
updates the position, a page starts at the origin with no font, and a font that is already current
is not selected again. The cache changes only after the last byte of a command was written.

A group is opened by `push`, which returns the position after it, and closed by `bracketPop` with
that position. A group that is still empty is closed by taking its `push` back.
-/
import Dvi.Writer.Basic

namespace Dvi.Writer

/-- The identification byte of the format. -/
def formatId : UInt8 := 2

/-- The filler that follows the postamble. -/
def filler : UInt8 := 223

/-- How many fillers follow a postamble that ends at a position: at least four, and as many as it
takes to end at a multiple of four. -/
def fillerCount (pos : Nat) : Nat :=
  4 + (4 - pos % 4) % 4

/-- The units of length of TeX, 2⁻¹⁶ points, enlarged by `mag / 1000`. -/
def texUnits (mag : UInt32) : Units :=
  { num := 25400000, den := 473628672, mag }

/-- Counts a page. -/
def addPage : WriteM Unit :=
  modifyCache fun cache => { cache with pages := cache.pages + 1 }

/-- Remembers the current font. -/
def setFont (font : Option UInt32) : WriteM Unit :=
  modifyCache fun cache => { cache with font }

/-- Remembers the horizontal position. -/
def setH (h : Int32) : WriteM Unit :=
  modifyCache fun cache => { cache with h }

/-- Remembers the vertical position. -/
def setV (v : Int32) : WriteM Unit :=
  modifyCache fun cache => { cache with v }

/-- Writes an unsigned word. -/
def word (x : UInt32) : WriteM Unit :=
  emitAll (Encoder.word x)

/-- Writes a signed number in four bytes. -/
def signedWord (x : Int32) : WriteM Unit :=
  emitAll (Encoder.signedWord x)

/-- Writes a command. One that has no encoding is refused before anything is written. A `bop` counts
a page, and fillers follow the end of the postamble. -/
def command (c : Command) : WriteM Unit := do
  if let some v := c.violation? then
    throw (.violation v)
  emitAll c.bytes
  match c with
  | .bop .. => addPage
  | .postPost .. => emitAll (List.replicate (fillerCount (← get).pos) filler)
  | _ => pure ()

/-- Writes commands in order, up to the first that fails. -/
def commands (cs : List Command) : WriteM Unit :=
  cs.forM command

/-- Writes a member of the family that begins at `base`, as wide as the signed number needs. -/
def signedMember (base : UInt8) (x : Int32) : WriteM Unit :=
  let size := Width.ofSigned x
  emitAll (Opcode.member base size :: Encoder.stored size x)

/-- Writes a member of the family that begins at `base`, as wide as the unsigned number needs. -/
def unsignedMember (base : UInt8) (x : UInt32) : WriteM Unit :=
  let size := Width.ofUnsigned x
  emitAll (Opcode.member base size :: Encoder.stored size x.toInt32)

/-- Writes the definition of a font with a number below 256. -/
def fontDefinition (number : UInt8) (checksum : UInt32) (scale designSize : Int32)
    (area name : Bytes) : WriteM Unit :=
  command (.fontDef .one
    { number := Int32.ofNat number.toNat, checksum, scale, designSize, area, name })

/-- Opens a group. The result is the position after the `push`. -/
def push : WriteM Nat := do
  emit Opcode.push.toByte
  return (← get).pos

/-- Closes the group that was opened just before `location`. If nothing was written since, the
`push` is taken back instead, provided that the buffer has not started over at that very place. -/
def bracketPop (location : Nat) : WriteM Unit := do
  let buffer := (← get).buffer
  match (if location = buffer.pos then buffer.last? else none) with
  | some found =>
    if found = Opcode.push.toByte then modifyBuffer Buffer.unstore
    else throw (.violation (.unmatchedPop found))
  | none => emit Opcode.pop.toByte

/-- Begins a page. The result is the position of its `bop`. -/
def beginPage (counters : Vector Int32 10) (prev : Int32) : WriteM Nat := do
  let location := (← get).pos
  command (.bop counters prev)
  modifyCache fun cache => { cache with h := 0, v := 0, font := none }
  return location

/-- Moves right. -/
def moveRight (d : Int32) : WriteM Unit := do
  signedMember (Opcode.moveBase .horizontal) d
  modifyCache fun cache => { cache with h := cache.h + d }

/-- Moves down. -/
def moveDown (d : Int32) : WriteM Unit := do
  signedMember (Opcode.moveBase .vertical) d
  modifyCache fun cache => { cache with v := cache.v + d }

/-- Makes a font current, unless it already is. -/
def selectFont (number : UInt32) : WriteM Unit := do
  if (← get).cache.font ≠ some number then
    if number < 64 then emit (Opcode.fontNum number.toUInt8).toByte
    else unsignedMember Opcode.fontBase number
    setFont (some number)

/-- Typesets a character. -/
def setChar (code : UInt32) : WriteM Unit :=
  if code < 128 then emit code.toUInt8
  else unsignedMember Opcode.setBase code

/-- Writes a preamble with the units of TeX. -/
def preamble (mag : UInt32) (comment : Bytes) : WriteM Unit :=
  command (.pre formatId (texUnits mag) comment)

end Dvi.Writer
