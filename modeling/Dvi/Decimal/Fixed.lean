/-
# Dvi.Decimal.Fixed — a floating-point number with a fixed number of places.

A floating-point number is exactly `m · 2 ^ q` for whole `m` and `q`. Its fixed-point text shows
that exact value, rounded to the asked number of decimal places; a value half way between two
neighbours goes to the one with an even last digit. Large numbers are written out in full, the sign
of a zero is kept, and a text that is shorter than the asked width is filled up on the left.
-/
import Dvi.Decimal.Rounding

namespace Dvi.Decimal

/-- A floating-point number in exact form: without its sign it is `m · 2 ^ q`, infinite or no
number. -/
inductive Magnitude where
  | finite (m : Nat) (q : Int)
  | infinite
  | notANumber
deriving DecidableEq

/-- Whether the sign bit is set, and the magnitude, of the number with these 64 bits. -/
def ofBits (bits : Nat) : Bool × Magnitude :=
  let negative := bits >>> 63 % 2 == 1
  let exponent : Nat := bits >>> 52 % 2048
  let fraction : Nat := bits % (1 <<< 52)
  let magnitude :=
    if exponent = 0 then .finite fraction (-1074)
    else if exponent < 2047 then .finite (1 <<< 52 + fraction) (exponent - 1075)
    else if fraction = 0 then .infinite
    else .notANumber
  (negative, magnitude)

/-- The number nearest to `m · 2 ^ q` in units of the last of `places` decimal places. -/
def scaled (places m : Nat) : Int → Nat
  | .ofNat q => (m * tenTo places) <<< q
  | .negSucc q => divToEven (m * tenTo places) (1 <<< (q + 1))

/-- A number that counts units of the last of `places` decimal places, written with a point. -/
def withPoint (places n : Nat) : List Char :=
  let fraction := Nat.toDigits 10 (n % tenTo places)
  Nat.toDigits 10 (n / tenTo places)
    ++ '.' :: List.replicate (places - fraction.length) '0' ++ fraction

/-- A magnitude with a number of decimal places. -/
def Magnitude.fixed (places : Nat) : Magnitude → List Char
  | finite m q => withPoint places (scaled places m q)
  | infinite => "inf".toList
  | notANumber => "NaN".toList

/-- Fills a text up to a width with spaces on the left. -/
def padLeft (width : Nat) (cs : List Char) : List Char :=
  List.replicate (width - cs.length) ' ' ++ cs

/-- A number with `places` decimal places, at least `width` characters wide. What is no number has
no sign. -/
def fixed (width places : Nat) (x : Float) : String :=
  let (negative, magnitude) := ofBits x.toBits.toNat
  let sign := if negative ∧ magnitude ≠ .notANumber then ['-'] else []
  String.ofList (padLeft width (sign ++ magnitude.fixed places))

end Dvi.Decimal
