/-!
# Numerals

Reading integers as they are written in programs and on the command line. A numeral without a base
of its own is decimal, octal after a leading `0`, hexadecimal after `0x`, octal after `0o` and
binary after `0b`. Digits are read from the left, so a numeral that leaves the 64-bit range is out
of range even when a later character is no digit at all.
-/

namespace Lantern.Text.Numeral

/-- The number of values of a 64-bit word, two to the 64. -/
def wordSize : Nat := 0x10000000000000000

/-- The first natural number above the signed 64-bit integers, two to the 63. -/
def signedLimit : Nat := 0x8000000000000000

/-- Why a text denotes no integer in range. -/
inductive Fault where
  /-- Not a numeral. -/
  | malformed
  /-- A numeral of a value outside the range. -/
  | outOfRange
  deriving Repr, DecidableEq

/-- The value of a digit, letters counting from ten. -/
def digitValue? (c : Char) : Option Nat :=
  if '0' ≤ c && c ≤ '9' then some (c.toNat - '0'.toNat)
  else if 'a' ≤ c && c ≤ 'z' then some (c.toNat - 'a'.toNat + 10)
  else if 'A' ≤ c && c ≤ 'Z' then some (c.toNat - 'A'.toNat + 10)
  else none

/-- Reads digits of `base` onto the value `n` so far. Underscores are passed over when `spaced`. -/
def readDigits (base : Nat) (spaced : Bool) : Nat → List Char → Except Fault Nat
  | n, [] => .ok n
  | n, c :: cs =>
    if c == '_' && spaced then readDigits base spaced n cs
    else
      match digitValue? c with
      | none => .error .malformed
      | some d =>
        if base ≤ d then .error .malformed
        else if wordSize ≤ n * base + d then .error .outOfRange
        else readDigits base spaced (n * base + d) cs

/-- The base a numeral announces, and what follows the announcement. -/
def announcedBase : List Char → Nat × List Char
  | '0' :: b :: d :: cs =>
    if b == 'b' || b == 'B' then (2, d :: cs)
    else if b == 'o' || b == 'O' then (8, d :: cs)
    else if b == 'x' || b == 'X' then (16, d :: cs)
    else (8, b :: d :: cs)
  | '0' :: cs => (8, cs)
  | cs => (10, cs)

/-- What stands to the left of the place reached by a check of underscores. -/
inductive Seen where
  /-- Nothing. -/
  | start
  /-- A digit, or the announcement of a base. -/
  | digit
  /-- An underscore. -/
  | underscore
  /-- Anything else. -/
  | other
  deriving Repr, DecidableEq

/-- Every underscore of `cs` stands between digits, given what stands before `cs`. -/
def spacedWell (hex : Bool) : Seen → List Char → Bool
  | seen, [] => seen != .underscore
  | seen, c :: cs =>
    if c.isDigit || (hex && (('a' ≤ c && c ≤ 'f') || ('A' ≤ c && c ≤ 'F'))) then
      spacedWell hex .digit cs
    else if c == '_' then seen == .digit && spacedWell hex .underscore cs
    else seen != .underscore && spacedWell hex .other cs

/-- Every underscore of a whole numeral separates digits; the announcement of a base counts as a
    digit. -/
def underscoresOk : List Char → Bool
  | '0' :: b :: cs =>
    if b == 'x' || b == 'X' then spacedWell true .digit cs
    else if b == 'b' || b == 'B' || b == 'o' || b == 'O' then spacedWell false .digit cs
    else spacedWell false .start ('0' :: b :: cs)
  | cs => spacedWell false .start cs

/-- The 64-bit natural number a numeral denotes, its base announced by the numeral. -/
def readNat (cs : List Char) : Except Fault Nat := do
  if cs.isEmpty then throw .malformed
  let (base, digits) := announcedBase cs
  let n ← readDigits base true 0 digits
  if digits.contains '_' && !underscoresOk cs then throw .malformed
  return n

/-- The 64-bit natural number denoted by decimal digits alone. -/
def readDecimal (cs : List Char) : Except Fault Nat := do
  if cs.isEmpty then throw .malformed
  readDigits 10 false 0 cs

/-- Splits a leading sign off; `true` is minus. -/
def takeSign : List Char → Bool × List Char
  | '+' :: cs => (false, cs)
  | '-' :: cs => (true, cs)
  | cs => (false, cs)

/-- Puts a sign on a 64-bit natural number, if the result is a signed 64-bit integer. -/
def signed (negative : Bool) (n : Nat) : Except Fault Int :=
  if negative then
    if signedLimit < n then .error .outOfRange else .ok (-(n : Int))
  else if signedLimit ≤ n then .error .outOfRange
  else .ok n

/-- The signed 64-bit integer a text denotes, its base announced by the numeral. -/
def readInt (s : String) : Except Fault Int := do
  let (negative, cs) := takeSign s.toList
  signed negative (← readNat cs)

/-- The signed 64-bit integer denoted by a decimal text. -/
def readDecimalInt (s : String) : Except Fault Int := do
  let (negative, cs) := takeSign s.toList
  signed negative (← readDecimal cs)

end Lantern.Text.Numeral
