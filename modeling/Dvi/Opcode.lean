/-
# Dvi.Opcode — the opcode table.

The first byte of a command says which command it is and, for a member of a family, how wide its
operand is. `Opcode` names what such a byte can say, `toByte` is its place in the table of the DVI
standard and `ofByte?` reads the table the other way. The main statements are that the table is
indexed by `toByte` (`ofByte?_toByte`) and that it holds nothing else (`toByte_of_ofByte?`).

Characters and fonts with an opcode of their own are kept with any byte as their number, although
only characters below 128 and fonts below 64 have a place in the table (`Opcode.Standard`): a
command may be described, and then refused, with a number that the table lacks.
-/
import Dvi.Width

namespace Dvi

/-- The direction in which a command moves. -/
inductive Axis where
  | horizontal
  | vertical
deriving DecidableEq, Repr

/-- A remembered movement: two of them are horizontal and two vertical. -/
inductive Spacing where
  | w
  | x
  | y
  | z
deriving DecidableEq, Repr

/-- The direction in which a remembered movement goes. -/
def Spacing.axis : Spacing → Axis
  | w | x => .horizontal
  | y | z => .vertical

/-- The letter by which a remembered movement goes. -/
def Spacing.letter : Spacing → String
  | w => "w"
  | x => "x"
  | y => "y"
  | z => "z"

/-- What the first byte of a command says. -/
inductive Opcode where
  /-- Typeset a character and move right. -/
  | setChar (code : UInt8)
  | set (size : Width)
  | setRule
  /-- Typeset a character where it is. -/
  | put (size : Width)
  | putRule
  | nop
  /-- Begin a page. -/
  | bop
  /-- End a page. -/
  | eop
  | push
  | pop
  /-- Move by the operand. -/
  | move (axis : Axis) (size : Width)
  /-- Move by a remembered amount. -/
  | again (spacing : Spacing)
  /-- Remember the operand and move by it. -/
  | space (spacing : Spacing) (size : Width)
  /-- Select a font. -/
  | fontNum (number : UInt8)
  | selectFont (size : Width)
  /-- Octets for the output driver. -/
  | special (size : Width)
  | fontDef (size : Width)
  /-- The preamble. -/
  | pre
  /-- The postamble. -/
  | post
  /-- The end of the postamble. -/
  | postPost
deriving DecidableEq, Repr

namespace Opcode

/-- The one-byte member of the characters that move. -/
def setBase : UInt8 := 128

/-- The one-byte member of the characters that stay. -/
def putBase : UInt8 := 133

/-- The one-byte member of the selections of a font. -/
def fontBase : UInt8 := 235

/-- The one-byte member of the specials. -/
def specialBase : UInt8 := 239

/-- The one-byte member of the definitions of a font. -/
def fontDefBase : UInt8 := 243

/-- The one-byte member of the movements along an axis. -/
def moveBase : Axis → UInt8
  | .horizontal => 143
  | .vertical => 157

/-- The one-byte member of the movements that a spacing remembers; the repetition stands just before
it. -/
def spaceBase : Spacing → UInt8
  | .w => 148
  | .x => 153
  | .y => 162
  | .z => 167

/-- A member of a family. The sum wraps, as bytes do. -/
def member (base : UInt8) (size : Width) : UInt8 :=
  base + UInt8.ofNat size.index

/-- The byte of an opcode. -/
def toByte : Opcode → UInt8
  | setChar code => code
  | set size => member setBase size
  | setRule => 132
  | put size => member putBase size
  | putRule => 137
  | nop => 138
  | bop => 139
  | eop => 140
  | push => 141
  | pop => 142
  | move axis size => member (moveBase axis) size
  | again spacing => spaceBase spacing - 1
  | space spacing size => member (spaceBase spacing) size
  | fontNum number => 171 + number
  | selectFont size => member fontBase size
  | special size => member specialBase size
  | fontDef size => member fontDefBase size
  | pre => 247
  | post => 248
  | postPost => 249

/-- The opcodes in the order of their bytes. Bytes past the end of the table are undefined. -/
def table : Array Opcode :=
  let spacing (s : Spacing) := again s :: Width.all.map (space s)
  ((List.range 128).map (fun code => setChar (UInt8.ofNat code))
    ++ Width.all.map set ++ [setRule]
    ++ Width.all.map put ++ [putRule, nop, bop, eop, push, pop]
    ++ Width.all.map (move .horizontal) ++ spacing .w ++ spacing .x
    ++ Width.all.map (move .vertical) ++ spacing .y ++ spacing .z
    ++ (List.range 64).map (fun number => fontNum (UInt8.ofNat number))
    ++ Width.all.map selectFont ++ Width.all.map special ++ Width.all.map fontDef
    ++ [pre, post, postPost]).toArray

/-- The opcode that a byte stands for, if any. -/
def ofByte? (b : UInt8) : Option Opcode :=
  table[b.toNat]?

/-- The mnemonic of the DVI standard. A family member ends in its width. -/
def name : Opcode → String
  | setChar code => s!"set_char_{code}"
  | set size => s!"set{size.size}"
  | setRule => "set_rule"
  | put size => s!"put{size.size}"
  | putRule => "put_rule"
  | nop => "nop"
  | bop => "bop"
  | eop => "eop"
  | push => "push"
  | pop => "pop"
  | move .horizontal size => s!"right{size.size}"
  | move .vertical size => s!"down{size.size}"
  | again spacing => spacing.letter ++ "0"
  | space spacing size => s!"{spacing.letter}{size.size}"
  | fontNum number => s!"fnt_num_{number}"
  | selectFont size => s!"fnt{size.size}"
  | special size => s!"xxx{size.size}"
  | fontDef size => s!"fnt_def{size.size}"
  | pre => "pre"
  | post => "post"
  | postPost => "post_post"

/-- An opcode that the table of the standard holds: the character or font number, if the opcode has
one, is small enough to have a byte of its own. -/
def Standard : Opcode → Prop
  | setChar code => code < 128
  | fontNum number => number < 64
  | _ => True

instance (op : Opcode) : Decidable op.Standard := by
  cases op <;> unfold Standard <;> infer_instance

/-! ## The table is indexed by `toByte` -/

theorem map_toByte_table : table.toList.map toByte = (List.range 250).map UInt8.ofNat := by
  decide +kernel

theorem size_table : table.size = 250 := by
  simpa using congrArg List.length map_toByte_table

/-- The opcode at a place of the table has that place as its byte. -/
theorem toByte_getElem_table (i : Nat) (h : i < table.size) : table[i].toByte = UInt8.ofNat i := by
  have place := congrArg (fun bytes => bytes[i]?) map_toByte_table
  simp only [List.getElem?_map, Array.getElem?_toList, Array.getElem?_eq_getElem h,
    List.getElem?_range (size_table ▸ h)] at place
  simpa using place

/-- The table holds every opcode of the standard. -/
theorem mem_table {op : Opcode} (h : op.Standard) : op ∈ table := by
  have widths (size : Width) : size ∈ Width.all := by cases size <;> decide
  cases op with
  | setChar code =>
    have small : ∃ n < 128, UInt8.ofNat n = code :=
      ⟨code.toNat, UInt8.lt_iff_toNat_lt.mp h, by simp⟩
    simp [table, small]
  | fontNum number =>
    have small : ∃ n < 64, UInt8.ofNat n = number :=
      ⟨number.toNat, UInt8.lt_iff_toNat_lt.mp h, by simp⟩
    simp [table, small]
  | move axis size => cases axis <;> simp [table, widths]
  | again spacing => cases spacing <;> simp [table]
  | space spacing size => cases spacing <;> simp [table, widths]
  | _ => simp [table, widths]

/-- Every opcode of the standard is found at its byte. -/
theorem ofByte?_toByte {op : Opcode} (h : op.Standard) : ofByte? op.toByte = some op := by
  obtain ⟨i, bound, rfl⟩ := Array.getElem_of_mem (mem_table h)
  have small : i < 250 := size_table ▸ bound
  have place : (UInt8.ofNat i).toNat = i := by rw [UInt8.toNat_ofNat']; omega
  rw [toByte_getElem_table, ofByte?, place, Array.getElem?_eq_getElem bound]

/-- What is found at a byte has that byte. -/
theorem toByte_of_ofByte? {b : UInt8} {op : Opcode} (h : ofByte? b = some op) : op.toByte = b := by
  obtain ⟨bound, rfl⟩ := Array.getElem?_eq_some_iff.mp h
  rw [toByte_getElem_table]
  simp

/-- The undefined bytes are those past the end of the table. -/
theorem ofByte?_eq_none_iff (b : UInt8) : ofByte? b = none ↔ 250 ≤ b := by
  rw [ofByte?, Array.getElem?_eq_none_iff, size_table, UInt8.le_iff_toNat_le]
  rfl

end Opcode

end Dvi
