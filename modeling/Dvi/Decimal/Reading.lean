/-
# Dvi.Decimal.Reading — floating-point numbers out of text.

A number is written as an optional sign and then either digits with an optional point and an
optional decimal exponent, or one of the words `inf`, `infinity` and `nan` in any case. There must
be a digit before the exponent; it may stand on either side of the point. Nothing else is a number:
no blanks, no digit separators, no other base.

The value is the floating-point number nearest to the exact decimal; of two that are equally near,
the one with an even significand. A decimal too large for any finite number is infinite.
-/
import Dvi.Decimal.Rounding

namespace Dvi.Decimal

/-! ## The nearest floating-point number -/

/-- The bits of infinity, past those of all finite numbers. -/
def infinityBits : Nat :=
  2047 <<< 52

/-- The exponent of the last bit of the floating-point number nearest to `n / d`: as large as the
leading bit of the quotient allows, and never below that of the smallest numbers. -/
def lastBit (n d : Nat) : Int :=
  let guess : Int := (n.log2 : Int) - d.log2 - 52
  -- The guess is right or one too large, because the logarithms are rounded down.
  let fits :=
    if 0 ≤ guess then d <<< (guess.toNat + 52) ≤ n else d <<< 52 ≤ n <<< (-guess).toNat
  max (if fits then guess else guess - 1) (-1074)

/-- The bits of the floating-point number nearest to `n / d`, for a positive `d`. Rounding up to the
next power of two carries from the significand into the exponent, as it should. -/
def bitsOfQuotient (n d : Nat) : Nat :=
  if n = 0 then 0
  else
    let q := lastBit n d
    let significand :=
      if 0 ≤ q then divToEven n (d <<< q.toNat) else divToEven (n <<< (-q).toNat) d
    min ((q + 1074).toNat <<< 52 + significand) infinityBits

/-! ## The grammar -/

/-- A number as it is written, without its sign. -/
inductive Literal where
  /-- The digits before and after the point as one number, how many stand after it, and the
  exponent. -/
  | decimal (digits : List Char) (places : Nat) (exponent : Int)
  | infinity
  | notANumber
deriving DecidableEq

/-- The number that decimal digits stand for. -/
def ofDigits (cs : List Char) : Nat :=
  cs.foldl (fun n c => 10 * n + (c.toNat - '0'.toNat)) 0

/-- Takes a sign off the front of a text. -/
def takeSign : List Char → Bool × List Char
  | '-' :: rest => (true, rest)
  | '+' :: rest => (false, rest)
  | rest => (false, rest)

/-- The exponent at the end of a number. -/
def exponent? : List Char → Option Int
  | [] => some 0
  | mark :: rest =>
    let (negative, digits) := takeSign rest
    if (mark = 'e' ∨ mark = 'E') ∧ digits ≠ [] ∧ digits.all Char.isDigit then
      let n := ofDigits digits
      some (if negative then -n else n)
    else none

/-- A number without its sign. -/
def Literal.ofChars? (cs : List Char) : Option Literal :=
  let word := cs.map Char.toLower
  if word = "inf".toList ∨ word = "infinity".toList then some .infinity
  else if word = "nan".toList then some .notANumber
  else
    let whole := cs.takeWhile Char.isDigit
    let (fraction, rest) := match cs.dropWhile Char.isDigit with
      | '.' :: rest => (rest.takeWhile Char.isDigit, rest.dropWhile Char.isDigit)
      | rest => ([], rest)
    if whole ++ fraction = [] then none
    else (exponent? rest).map (.decimal (whole ++ fraction) fraction.length)

/-- The bits of a number without its sign. An exponent that puts the first digit far outside the
range of floating-point numbers is not worked out. -/
def Literal.bits : Literal → Nat
  | .decimal digits places exponent =>
    let significant := digits.dropWhile (· = '0')
    let n := ofDigits significant
    let scale := exponent - places
    let leading := significant.length + scale
    if n = 0 ∨ leading < -400 then 0
    else if 400 < leading then infinityBits
    else if 0 ≤ scale then bitsOfQuotient (n * tenTo scale.toNat) 1
    else bitsOfQuotient n (tenTo (-scale).toNat)
  | .infinity => infinityBits
  | .notANumber => infinityBits + 1 <<< 51

/-- The floating-point number that a text denotes, if it is a number. -/
def ofText? (text : String) : Option Float :=
  let (negative, rest) := takeSign text.toList
  (Literal.ofChars? rest).map fun literal =>
    Float.ofBits (UInt64.ofNat (literal.bits + if negative then 1 <<< 63 else 0))

end Dvi.Decimal
