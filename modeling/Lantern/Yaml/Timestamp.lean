/-!
# Points in time

A scalar without quotes that looks like a date, with or without a time of day, stands for a point in
time. The date has a year of four digits; month, day, hour, minute and second have one or two. Behind
a `T` a time zone is required, behind spaces there must be none. Seconds may have a fraction.
-/

namespace Lantern.Yaml.Timestamp

/-- Reads a number of one or two digits. -/
def readNumber? : List Char → Option (Nat × List Char)
  | a :: b :: cs =>
    if a.isDigit && b.isDigit then
      some (10 * (a.toNat - '0'.toNat) + (b.toNat - '0'.toNat), cs)
    else if a.isDigit then some (a.toNat - '0'.toNat, b :: cs)
    else none
  | [a] => if a.isDigit then some (a.toNat - '0'.toNat, []) else none
  | [] => none

/-- Passes over a certain character. -/
def expect? (c : Char) : List Char → Option (List Char)
  | d :: cs => if c == d then some cs else none
  | [] => none

/-- Whether a year has a 29th of February. -/
def isLeap (year : Nat) : Bool := year % 4 == 0 && (year % 100 != 0 || year % 400 == 0)

/-- The number of days in a month of a year. -/
def daysIn (year month : Nat) : Nat :=
  if month == 2 then (if isLeap year then 29 else 28)
  else if [4, 6, 9, 11].contains month then 30
  else 31

/-- Reads a year of four digits. -/
def readYear? : List Char → Option (Nat × List Char)
  | a :: b :: c :: d :: cs =>
    if [a, b, c, d].all Char.isDigit then
      some ([a, b, c, d].foldl (fun n e => 10 * n + (e.toNat - '0'.toNat)) 0, cs)
    else none
  | _ => none

/-- Passes over a date of the calendar. -/
def skipDate? (cs : List Char) : Option (List Char) := do
  let (year, cs) ← readYear? cs
  let (month, cs) ← readNumber? (← expect? '-' cs)
  let (day, cs) ← readNumber? (← expect? '-' cs)
  if 1 ≤ month && month ≤ 12 && 1 ≤ day && day ≤ daysIn year month then some cs else none

/-- Passes over a fraction, if there is one. -/
def skipFraction : List Char → List Char
  | p :: d :: cs =>
    if (p == '.' || p == ',') && d.isDigit then cs.dropWhile Char.isDigit else p :: d :: cs
  | cs => cs

/-- Passes over a time of day. -/
def skipTime? (cs : List Char) : Option (List Char) := do
  let (hour, cs) ← readNumber? cs
  let (minute, cs) ← readNumber? (← expect? ':' cs)
  let (second, cs) ← readNumber? (← expect? ':' cs)
  if hour < 24 && minute < 60 && second < 60 then some (skipFraction cs) else none

/-- Whether a text is a time zone: a `Z`, or hours and minutes behind a sign. -/
def isZone : List Char → Bool
  | ['Z'] => true
  | [sign, a, b, ':', c, d] =>
    (sign == '+' || sign == '-') && [a, b, c, d].all Char.isDigit &&
      10 * (a.toNat - '0'.toNat) + (b.toNat - '0'.toNat) ≤ 24 &&
      10 * (c.toNat - '0'.toNat) + (d.toNat - '0'.toNat) ≤ 60
  | _ => false

/-- Whether a text is a point in time. -/
def isTimestamp (s : String) : Bool :=
  match skipDate? s.toList with
  | none => false
  | some [] => true
  | some (c :: cs) =>
    if c == 'T' || c == 't' then ((skipTime? cs).map isZone).getD false
    else if c == ' ' then skipTime? (cs.dropWhile (· == ' ')) == some []
    else false

end Lantern.Yaml.Timestamp
