/-!
# Lower case

Names of targets are compared without regard to case.
-/

namespace Lantern.Text

/-- The lower-case form of a character, as far as that form is an ASCII letter: the capital letters,
    the capital `I` with a dot and the sign for kelvin. Every other character stays. -/
def lowerChar (c : Char) : Char :=
  if 'A' ≤ c && c ≤ 'Z' then Char.ofNat (c.toNat + 32)
  else if c.toNat == 0x130 then 'i'
  else if c.toNat == 0x212A then 'k'
  else c

/-- `s` with its characters in lower case. -/
def lower (s : String) : String := String.ofList (s.toList.map lowerChar)

end Lantern.Text
