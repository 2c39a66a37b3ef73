import Lantern.Text.Pieces

/-!
# Durations

Spans of time in nanoseconds, as reports show them.
-/

namespace Lantern

/-- A span of time. -/
structure Duration where
  /-- Its nanoseconds. -/
  nanos : Int64
  deriving Repr, DecidableEq

namespace Duration

/-- No time. -/
def zero : Duration := ⟨0⟩

/-- Two spans in a row. -/
def add (a b : Duration) : Duration := ⟨a.nanos + b.nanos⟩

/-- A span in whole microseconds below a millisecond, else in whole milliseconds; right-aligned. -/
def brief (d : Duration) : String :=
  if d.nanos < 1000000 then Text.padStart 6 (toString (d.nanos / 1000).toInt) ++ "us"
  else Text.padStart 6 (toString (d.nanos / 1000000).toInt) ++ "ms"

/-- The multiple of `unit` nearest to `n`; a half goes up. -/
def nearestMultiple (unit n : Nat) : Nat :=
  if 2 * (n % unit) < unit then n - n % unit else n + (unit - n % unit)

/-- The multiple of `unit` nanoseconds nearest to a span; a half goes away from zero. A result out of
    range is the end of the range. -/
def round (d : Duration) (unit : Nat) : Duration :=
  let n := d.nanos.toInt
  let size : Int := nearestMultiple unit n.natAbs
  let signed := if n < 0 then -size else size
  ⟨Int64.ofInt (max Int64.minValue.toInt (min Int64.maxValue.toInt signed))⟩

/-- The fraction `n / 10 ^ places` as digits behind a point, without zeros at the end; nothing if it
    is zero. -/
def fraction (places n : Nat) : String :=
  let digits := (toString n).toList
  let padded := List.replicate (places - digits.length) '0' ++ digits
  match Text.dropWhileEnd (· == '0') padded with
  | [] => ""
  | ds => String.ofList ('.' :: ds)

/-- The number `n / 10 ^ places` with as many digits as it needs. -/
def decimal (places n : Nat) : String :=
  let unit := Nat.pow 10 places
  toString (n / unit) ++ fraction places (n % unit)

/-- A span that is not negative, in units that suit its size. -/
def showNat (n : Nat) : String :=
  if n == 0 then "0s"
  else if n < 1000 then toString n ++ "ns"
  else if n < 1000000 then decimal 3 n ++ "µs"
  else if n < 1000000000 then decimal 6 n ++ "ms"
  else
    let seconds := n / 1000000000
    (if seconds < 3600 then "" else toString (seconds / 3600) ++ "h") ++
      (if seconds < 60 then "" else toString (seconds / 60 % 60) ++ "m") ++
      toString (seconds % 60) ++ fraction 9 (n % 1000000000) ++ "s"

/-- A span in units that suit its size. -/
def shown (d : Duration) : String :=
  (if d.nanos < 0 then "-" else "") ++ showNat d.nanos.toInt.natAbs

end Duration

end Lantern
