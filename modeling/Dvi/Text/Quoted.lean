/-
# Dvi.Text.Quoted — octets in double quotes.

A listing shows the free strings of a stream in double quotes, so that each stays on its line and no
two different strings look alike. Characters that show are themselves; quotes, the backslash and
blanks other than the space have their short escapes; other control characters and the octets of an
invalid part are given in hexadecimal; a character that does not show by itself is given by its
number.
-/
import Dvi.Text.Invisible
import Dvi.Text.Utf8

namespace Dvi.Quoted

open Utf8 (Piece)

/-- A number in hexadecimal, without leading zeros. -/
def hex (n : Nat) : List Char :=
  Nat.toDigits 16 n

/-- An octet as two hexadecimal digits. -/
def hexOctet (b : UInt8) : List Char :=
  [Nat.digitChar (b.toNat / 16), Nat.digitChar (b.toNat % 16)]

/-- An octet by its value. -/
def octet (b : UInt8) : List Char :=
  '\\' :: 'x' :: hexOctet b

/-- A character inside the quotes. -/
def char (c : Char) : List Char :=
  if c = '\x00' then ['\\', '0']
  else if c = '\t' then ['\\', 't']
  else if c = '\r' then ['\\', 'r']
  else if c = '\n' then ['\\', 'n']
  else if c = '\'' ∨ c = '"' ∨ c = '\\' then ['\\', c]
  else if c.toNat < 0x20 ∨ c.toNat = 0x7F then octet (UInt8.ofNat c.toNat)
  else if c.toNat < 0x7F then [c]
  else if Invisible.isInvisible c then '\\' :: 'u' :: '\x7b' :: hex c.toNat ++ ['\x7d']
  else [c]

/-- A piece inside the quotes. -/
def piece : Piece → List Char
  | .char c => char c
  | .invalid octets => octets.flatMap octet

/-- A string of octets in quotes. -/
def text (octets : Bytes) : String :=
  String.ofList ('"' :: (Utf8.pieces octets).flatMap piece ++ ['"'])

end Dvi.Quoted
