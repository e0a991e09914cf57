/-
# Dvi.Command.Basic — the commands of a DVI stream.

Every command of the format is one value of `Command`. A member of a family keeps the width in which
its operand is stored, so that a decoded stream can be written again byte for byte. The opcode of a
command is a function of the command, and its mnemonic is that of the opcode.

A command may hold a number that its width cannot store, or a character or font number that has no
opcode; which of these are refused is said in `Dvi.Command.Encoding`.
-/
import Dvi.Font
import Dvi.Opcode

namespace Dvi

/-- The unit of length of a stream: `num / den` times 10⁻⁷ metres, enlarged by `mag / 1000`. -/
structure Units where
  num : UInt32
  den : UInt32
  mag : UInt32
deriving DecidableEq

/-- What the postamble says of the whole stream. -/
structure Summary where
  /-- The place of the last `bop`. -/
  prev : Int32
  units : Units
  maxHeight : Int32
  maxWidth : Int32
  maxStack : UInt16
  pages : UInt16
deriving DecidableEq

/-- A command of a DVI stream. -/
inductive Command where
  | setChar (code : UInt8)
  | set (size : Width) (code : Int32)
  | setRule (height width : Int32)
  | put (size : Width) (code : Int32)
  | putRule (height width : Int32)
  | nop
  /-- Begin a page. `prev` is the place of the `bop` before, or `-1`. -/
  | bop (counters : Vector Int32 10) (prev : Int32)
  | eop
  | push
  | pop
  | move (axis : Axis) (size : Width) (amount : Int32)
  | again (spacing : Spacing)
  | space (spacing : Spacing) (size : Width) (amount : Int32)
  | fontNum (number : UInt8)
  | selectFont (size : Width) (number : Int32)
  | special (size : Width) (payload : Bytes)
  | fontDef (size : Width) (font : Font)
  | pre (id : UInt8) (units : Units) (comment : Bytes)
  | post (summary : Summary)
  | postPost (pointer : Int32) (id : UInt8)
deriving DecidableEq

namespace Command

/-- What the first byte of a command says. -/
def opcode : Command → Opcode
  | setChar code => .setChar code
  | set size _ => .set size
  | setRule _ _ => .setRule
  | put size _ => .put size
  | putRule _ _ => .putRule
  | nop => .nop
  | bop _ _ => .bop
  | eop => .eop
  | push => .push
  | pop => .pop
  | move axis size _ => .move axis size
  | again spacing => .again spacing
  | space spacing size _ => .space spacing size
  | fontNum number => .fontNum number
  | selectFont size _ => .selectFont size
  | special size _ => .special size
  | fontDef size _ => .fontDef size
  | pre _ _ _ => .pre
  | post _ => .post
  | postPost _ _ => .postPost

/-- The mnemonic of a command. -/
def name (c : Command) : String :=
  c.opcode.name

end Command

end Dvi
