/-
# Dvi.Command.Encoding — the bytes of a command.

A command is its opcode followed by its operands, each with the most significant byte first. An
operand of a family is cut to the stored width: a number that is too large for it keeps its low
bytes. What cannot be encoded at all is named by `violation?`: a character or font number without an
opcode, and a byte string that is longer than its length field can say.
-/
import Dvi.Command.Basic

namespace Dvi

namespace Encoder

/-- The four bytes of an unsigned word. -/
def word (x : UInt32) : Bytes :=
  bigEndian 4 x.toNat

/-- The low bytes of a signed number in two's complement. -/
def stored (size : Width) (x : Int32) : Bytes :=
  bigEndian size.size x.toUInt32.toNat

/-- The four bytes of a signed number in two's complement. -/
def signedWord (x : Int32) : Bytes :=
  stored .four x

/-- The two bytes of an unsigned half word. -/
def halfWord (x : UInt16) : Bytes :=
  bigEndian 2 x.toNat

/-- The three words of a unit of length. -/
def units (units : Units) : Bytes :=
  word units.num ++ word units.den ++ word units.mag

/-- The one byte of a length below 256. -/
def shortLength (bs : Bytes) : UInt8 :=
  UInt8.ofNat bs.length

end Encoder

/-- Something that the format cannot represent. -/
inductive Violation where
  | areaTooLong (length : Nat)
  | nameTooLong (length : Nat)
  /-- A group would be closed by erasing a byte that opens none. -/
  | unmatchedPop (found : UInt8)
  | charOutOfRange (code : UInt8)
  | fontNumberOutOfRange (number : UInt8)
  | specialTooLong (length : Nat) (size : Width)
  | commentTooLong (length : Nat)
deriving DecidableEq

/-- What a violation is reported as. -/
def Violation.message : Violation → String
  | areaTooLong length => s!"font area is {length} bytes, at most 255 are allowed"
  | nameTooLong length => s!"font name is {length} bytes, at most 255 are allowed"
  | unmatchedPop found => s!"pop would erase byte {found} instead of a push"
  | charOutOfRange code => s!"character {code} has no set_char opcode"
  | fontNumberOutOfRange number => s!"font {number} has no fnt_num opcode"
  | specialTooLong length size =>
    s!"special of {length} bytes does not fit a {size.size}-byte length"
  | commentTooLong length => s!"comment is {length} bytes, at most 255 are allowed"

namespace Command

open Encoder

/-- The bytes after the opcode. -/
def operands : Command → Bytes
  | set size code | put size code => stored size code
  | setRule height width | putRule height width => signedWord height ++ signedWord width
  | bop counters prev => counters.toList.flatMap signedWord ++ signedWord prev
  | move _ size amount | space _ size amount => stored size amount
  | selectFont size number => stored size number
  | special size payload => bigEndian size.size payload.length ++ payload
  | fontDef size font =>
    stored size font.number ++ word font.checksum ++ signedWord font.scale
      ++ signedWord font.designSize ++ [shortLength font.area, shortLength font.name]
      ++ font.area ++ font.name
  | pre id units comment => id :: Encoder.units units ++ shortLength comment :: comment
  | post summary =>
    signedWord summary.prev ++ Encoder.units summary.units ++ signedWord summary.maxHeight
      ++ signedWord summary.maxWidth ++ halfWord summary.maxStack ++ halfWord summary.pages
  | postPost pointer id => signedWord pointer ++ [id]
  | setChar _ | nop | eop | push | pop | again _ | fontNum _ => []

/-- The encoding of a command, without the filler that may follow it. -/
def bytes (c : Command) : Bytes :=
  c.opcode.toByte :: c.operands

/-- Why a command has no encoding. Of a font definition with two strings that are too long, the
area is the one reported. -/
def violation? : Command → Option Violation
  | setChar code => if code < 128 then none else some (.charOutOfRange code)
  | fontNum number => if number < 64 then none else some (.fontNumberOutOfRange number)
  | special size payload =>
    if payload.length ≤ size.maxLength then none
    else some (.specialTooLong payload.length size)
  | fontDef _ font =>
    if 255 < font.area.length then some (.areaTooLong font.area.length)
    else if 255 < font.name.length then some (.nameTooLong font.name.length)
    else none
  | pre _ _ comment =>
    if comment.length ≤ 255 then none else some (.commentTooLong comment.length)
  | _ => none

/-- A command without a violation has an opcode of the standard. -/
theorem standard_of_violation? {c : Command} (h : c.violation? = none) : c.opcode.Standard := by
  cases c <;> simp_all [violation?, opcode, Opcode.Standard]

end Command

end Dvi
