/-!
# Base 64

Bytes written as characters of six bits each. Four characters stand for three bytes; the last group
may be shorter and is then filled up with equals signs. Line breaks are passed over.
-/

namespace Lantern.Text.Base64

/-- The six bits of a character. -/
def sextet? (c : Char) : Option Nat :=
  if 'A' ≤ c && c ≤ 'Z' then some (c.toNat - 'A'.toNat)
  else if 'a' ≤ c && c ≤ 'z' then some (c.toNat - 'a'.toNat + 26)
  else if c.isDigit then some (c.toNat - '0'.toNat + 52)
  else if c == '+' then some 62
  else if c == '/' then some 63
  else none

/-- The first `count` bytes of four sextets. -/
def groupBytes (count : Nat) (a b c d : Nat) : List UInt8 :=
  let n := ((a * 64 + b) * 64 + c) * 64 + d
  [n / 65536, n / 256 % 256, n % 256].take count |>.map Nat.toUInt8

/-- The bytes of whole groups. -/
def readGroups? : List Char → Option (List UInt8)
  | [] => some []
  | [a, b, '=', '='] => do
    return groupBytes 1 (← sextet? a) (← sextet? b) 0 0
  | [a, b, c, '='] => do
    return groupBytes 2 (← sextet? a) (← sextet? b) (← sextet? c) 0
  | a :: b :: c :: d :: rest => do
    let bytes := groupBytes 3 (← sextet? a) (← sextet? b) (← sextet? c) (← sextet? d)
    return bytes ++ (← readGroups? rest)
  | _ => none

/-- The bytes a text stands for. -/
def decode? (s : String) : Option (List UInt8) :=
  readGroups? (s.toList.filter fun c => c != '\n' && c != '\r')

end Lantern.Text.Base64
