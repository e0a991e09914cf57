/-
# Dvi.Width — the stored width of an operand.

Most DVI commands come in a family of four, whose operand takes one to four bytes. The width is a
part of the command: two commands that store the same number in different widths are different
commands. This module holds the four widths, the narrowest width for a signed or an unsigned number
and the largest length that a length field of each width can announce.
-/
import Dvi.BigEndian

namespace Dvi

/-- How many bytes a family member spends on its operand. -/
inductive Width where
  | one
  | two
  | three
  | four
deriving DecidableEq, Repr

namespace Width

/-- The place of the width in its family, counted from the one-byte member. -/
def index : Width → Nat
  | one => 0
  | two => 1
  | three => 2
  | four => 3

/-- The number of bytes of the operand. -/
def size (width : Width) : Nat :=
  width.index + 1

/-- The four widths in the order in which a family lists them. -/
def all : List Width :=
  [one, two, three, four]

/-- The width at a place in its family. -/
def ofIndex? (i : Nat) : Option Width :=
  all[i]?

/-- How many numbers an operand of this width tells apart. -/
def patterns (width : Width) : Nat :=
  capacity width.size

/-- The narrowest width for a signed number, chosen by magnitude: the magnitude must stay below half
of the patterns. So `-128` takes two bytes, although one signed byte could hold it. -/
def ofSigned (x : Int32) : Width :=
  let magnitude := x.toInt.natAbs
  if 2 * magnitude < one.patterns then one
  else if 2 * magnitude < two.patterns then two
  else if 2 * magnitude < three.patterns then three
  else four

/-- The narrowest width for an unsigned number. -/
def ofUnsigned (x : UInt32) : Width :=
  if x.toNat < one.patterns then one
  else if x.toNat < two.patterns then two
  else if x.toNat < three.patterns then three
  else four

/-- The largest length that a length field of this width announces. A four-byte length is signed, so
half of its patterns announce none. -/
def maxLength : Width → Nat
  | four => four.patterns / 2 - 1
  | width => width.patterns - 1

theorem ofIndex?_index (width : Width) : ofIndex? width.index = some width := by
  cases width <;> rfl

theorem index_of_ofIndex? {i : Nat} {width : Width} (h : ofIndex? i = some width) :
    width.index = i := by
  match i with
  | 0 | 1 | 2 | 3 => simp [ofIndex?, all] at h; subst h; rfl
  | i + 4 => simp [ofIndex?, all] at h

end Width

end Dvi
