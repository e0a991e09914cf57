/-
# Dvi.Text.Utf8 — octets as text.

The strings inside a DVI stream are octets that need not be text. `Utf8.pieces` cuts them into the
characters that they spell in UTF-8 and the parts that spell none. An invalid part is maximal: it
is the longest start of some character's encoding that stands there, or a single byte where no
encoding starts. `Utf8.lossy` shows each invalid part as one replacement character, and
`Utf8.encode` gives the octets of a text.
-/
import Dvi.BigEndian

namespace Dvi.Utf8

/-- A part of a string of octets. -/
inductive Piece where
  | char (c : Char)
  | invalid (octets : Bytes)
deriving DecidableEq

/-- What the first byte of a longer encoding announces: how many bytes follow, the bits that it
contributes, and the range of the byte after it. The range excludes overlong forms, surrogates and
numbers past the last character. -/
structure Lead where
  more : Nat
  bits : Nat
  low : UInt8
  high : UInt8
deriving DecidableEq

/-- The announcement of a byte above ASCII. -/
def Lead.ofByte? (b : UInt8) : Option Lead :=
  let n := b.toNat
  if n < 0xC2 then none
  else if n < 0xE0 then some ⟨1, n - 0xC0, 0x80, 0xBF⟩
  else if n = 0xE0 then some ⟨2, n - 0xE0, 0xA0, 0xBF⟩
  else if n = 0xED then some ⟨2, n - 0xE0, 0x80, 0x9F⟩
  else if n < 0xF0 then some ⟨2, n - 0xE0, 0x80, 0xBF⟩
  else if n = 0xF0 then some ⟨3, n - 0xF0, 0x90, 0xBF⟩
  else if n < 0xF4 then some ⟨3, n - 0xF0, 0x80, 0xBF⟩
  else if n = 0xF4 then some ⟨3, n - 0xF0, 0x80, 0x8F⟩
  else none

/-- Reads the rest of an encoding. `taken` holds the bytes read so far, newest first. The part ends
before the first byte that cannot stand where it does. -/
def follow : (more : Nat) → (low high : UInt8) → (bits : Nat) → (taken : Bytes) → Bytes →
    Piece × Bytes
  | 0, _, _, bits, _, rest => (.char (Char.ofNat bits), rest)
  | _ + 1, _, _, _, taken, [] => (.invalid taken.reverse, [])
  | more + 1, low, high, bits, taken, b :: rest =>
    if low ≤ b ∧ b ≤ high then
      follow more 0x80 0xBF (bits * 64 + (b.toNat - 0x80)) (b :: taken) rest
    else (.invalid taken.reverse, b :: rest)

/-- The piece that starts with `b`, and what comes after it. -/
def first (b : UInt8) (rest : Bytes) : Piece × Bytes :=
  if b.toNat < 0x80 then (.char (Char.ofNat b.toNat), rest)
  else match Lead.ofByte? b with
    | none => (.invalid [b], rest)
    | some lead => follow lead.more lead.low lead.high lead.bits [b] rest

theorem length_follow_le (more : Nat) (low high : UInt8) (bits : Nat) (taken rest : Bytes) :
    (follow more low high bits taken rest).2.length ≤ rest.length := by
  fun_induction follow more low high bits taken rest with
  | case1 => simp
  | case2 => simp
  | case3 more low high bits taken b rest inside ih => simp only [List.length_cons]; omega
  | case4 => simp

theorem length_first_le (b : UInt8) (rest : Bytes) : (first b rest).2.length ≤ rest.length := by
  unfold first
  split
  · simp
  · split
    · simp
    · exact length_follow_le ..

/-- The pieces of the octets that are left, after those already seen, newest first. -/
def piecesAfter (seen : List Piece) : Bytes → List Piece
  | [] => seen.reverse
  | b :: rest =>
    have := length_first_le b rest
    piecesAfter ((first b rest).1 :: seen) (first b rest).2
termination_by octets => octets.length
decreasing_by simp only [List.length_cons]; omega

/-- The characters and the invalid parts of a string of octets, in order. -/
def pieces (octets : Bytes) : List Piece :=
  piecesAfter [] octets

/-- What a piece is shown as when its octets do not matter. -/
def Piece.shown : Piece → Char
  | char c => c
  | invalid _ => '\uFFFD'

/-- The octets of a text. -/
def encode (text : String) : Bytes :=
  text.toList.flatMap String.utf8EncodeChar

@[simp]
theorem encode_append (s t : String) : encode (s ++ t) = encode s ++ encode t := by
  simp [encode]

/-- Octets as text, with one replacement character for each invalid part. -/
def lossy (octets : Bytes) : String :=
  String.ofList ((pieces octets).map Piece.shown)

end Dvi.Utf8
