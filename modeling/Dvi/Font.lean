/-
# Dvi.Font — font definitions and the table of fonts defined so far.

A font is known to a stream by a number. A later definition of the same number replaces the earlier
one, so the table is a list with the newest definition first and looking up takes the first match.
-/
import Dvi.BigEndian

namespace Dvi

/-- A font as a definition announces it. -/
structure Font where
  number : Int32
  checksum : UInt32
  /-- The size at which the font is used. -/
  scale : Int32
  designSize : Int32
  /-- Where the font is found, in the words of the system that wrote the stream. -/
  area : Bytes
  name : Bytes
deriving DecidableEq

/-- The definitions seen so far, newest first. -/
abbrev FontTable := List Font

namespace FontTable

/-- The table after one more definition. -/
def define (fonts : FontTable) (font : Font) : FontTable :=
  font :: fonts

/-- The font that a number stands for: its last definition. -/
def find? (fonts : FontTable) (number : Int32) : Option Font :=
  List.find? (fun font => font.number == number) fonts

/-- A definition decides its own number and leaves every other number alone. -/
theorem find?_define (fonts : FontTable) (font : Font) (number : Int32) :
    (fonts.define font).find? number =
      if font.number = number then some font else fonts.find? number := by
  by_cases h : font.number = number <;> simp [define, find?, h]

/-- A font is found under its own number. -/
theorem number_of_find? {fonts : FontTable} {number : Int32} {font : Font}
    (found : fonts.find? number = some font) : font.number = number := by
  rw [find?] at found
  have same := List.find?_some found
  exact eq_of_beq same

end FontTable

end Dvi
