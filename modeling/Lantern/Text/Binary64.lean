/-!
# Nearest binary numbers

A decimal fraction is taken as the nearest number with 53 binary digits and an exponent of eleven
bits, a tie going to the even one. Only the integral part of such a number is asked for, and whether
there is one at all: a fraction that rounds beyond the greatest number has none.
-/

namespace Lantern.Text.Binary64

/-- The quotient rounded to the nearest integer, a tie to the even one. -/
def roundDiv (num den : Nat) : Nat :=
  let q := num / den
  let r := num % den
  if 2 * r < den then q
  else if den < 2 * r then q + 1
  else q + q % 2

/-- `num / den` divided by two to the power `e`, as a fraction. -/
def scaled (num den : Nat) (e : Int) : Nat × Nat :=
  if e < 0 then (num <<< e.natAbs, den) else (num, den <<< e.toNat)

/-- The number of binary digits kept. -/
def precision : Nat := 53

/-- The least exponent of the last binary digit. -/
def leastExponent : Int := -1074

/-- The exponent of the last binary digit kept of the positive fraction `num / den`. -/
def lastDigitExponent (num den : Nat) : Int :=
  let e : Int := (num.log2 : Int) - den.log2 - precision
  let (n, d) := scaled num den e
  max leastExponent (if (n / d).log2 < precision then e else e + 1)

/-- The first natural number beyond the greatest binary number, two to the 1024. -/
def limit : Nat := 1 <<< 1024

/-- The integral part of the binary number nearest to `num / den`, unless that is out of range. -/
def integralPart? (num den : Nat) : Option Nat :=
  if num == 0 || den == 0 then some 0
  else
    let e := lastDigitExponent num den
    let (n, d) := scaled num den e
    let m := roundDiv n d
    let cut := if e < 0 then m >>> e.natAbs else m <<< e.toNat
    if cut < limit then some cut else none

/-- The number of digits behind which a decimal number is out of range, or none but zero. -/
def widest : Nat := 400

/-- The integral part of the binary number nearest to `digits` times ten to the power `exp`, unless
    that is out of range. -/
def ofDecimal? (digits : Nat) (exp : Int) : Option Nat :=
  let width : Int := exp + (toString digits).length
  if digits == 0 || width < -(widest : Int) then some 0
  else if (widest : Int) < width then none
  else if exp < 0 then integralPart? digits (Nat.pow 10 exp.natAbs)
  else integralPart? (digits * Nat.pow 10 exp.toNat) 1

end Lantern.Text.Binary64
