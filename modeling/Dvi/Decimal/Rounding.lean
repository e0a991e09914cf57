/-
# Dvi.Decimal.Rounding — quotients rounded to the nearest whole number.

Both directions between decimal text and floating-point numbers round an exact quotient. A quotient
that lies half way between two whole numbers goes to the even one.
-/

namespace Dvi.Decimal

/-- Ten times itself `n` times. -/
def tenTo (n : Nat) : Nat :=
  Nat.pow 10 n

/-- The whole number nearest to `n / d`; of two that are equally near, the even one. -/
def divToEven (n d : Nat) : Nat :=
  let q := n / d
  let twice := 2 * (n % d)
  if twice < d then q
  else if d < twice then q + 1
  else q + q % 2

end Dvi.Decimal
