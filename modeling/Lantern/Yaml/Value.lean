import Lantern.Text.Base64
import Lantern.Text.Binary64
import Lantern.Text.Numeral
import Lantern.Text.Utf8
import Lantern.Yaml.Fault
import Lantern.Yaml.Timestamp

/-!
# Values of scalars

What a scalar stands for. Without quotes and without a tag of its own it may be null, a truth value,
a number or a point in time; else it is a text. The tag of one of these types is a claim, and a scalar
that is not of the type its tag claims is at fault. Any other tag leaves the scalar a text: in base 64
if the tag says so, and as it is written otherwise.
-/

namespace Lantern.Yaml

/-- A number with a fraction or an exponent, as far as its integral part. -/
inductive Fractional where
  /-- Not a number. -/
  | nan
  /-- Beyond all numbers on one side. -/
  | infinite (negative : Bool)
  /-- A number, cut to the integer towards zero. -/
  | finite (cut : Int)
  deriving Repr, DecidableEq

/-- What a scalar stands for. -/
inductive Value where
  /-- Nothing. -/
  | null
  /-- A truth value. -/
  | bool (value : Bool)
  /-- An integer. -/
  | int (value : Int)
  /-- A number with a fraction or an exponent. -/
  | float (value : Fractional)
  /-- A point in time. -/
  | timestamp
  /-- A text. -/
  | str (text : String)
  deriving Repr, DecidableEq

namespace Value

/-- The tag of texts. -/
def strTag : String := "!!str"

/-- The tag of bytes in base 64. -/
def binaryTag : String := "!!binary"

/-- The sign that takes over the entries of another map. -/
def mergeSign : String := "<<"

/-- The tag of that sign. -/
def mergeTag : String := "!!merge"

/-- The tag of nothing. -/
def nullTag : String := "!!null"

/-- The short form of the tag of a value. -/
def tag : Value → String
  | null => nullTag
  | bool _ => "!!bool"
  | int _ => "!!int"
  | float _ => "!!float"
  | timestamp => "!!timestamp"
  | str _ => strTag

/-- Puts a sign on a number's integral part. -/
def withSign (negative : Bool) (n : Nat) : Int := if negative then -(n : Int) else n

/-- The number that decimal digits denote. -/
def digitsValue (ds : List Char) : Nat :=
  ds.foldl (fun n d => 10 * n + (d.toNat - '0'.toNat)) 0

/-- An exponent behind a number: none, or a letter, an optional sign and digits. -/
def readExponent? : List Char → Option Int
  | [] => some 0
  | c :: cs =>
    if c == 'e' || c == 'E' then
      let (negative, ds) := Text.Numeral.takeSign cs
      if ds.isEmpty || !ds.all Char.isDigit then none
      else some (withSign negative (digitsValue ds))
    else none

/-- The number denoted by digits before or behind a point and an optional exponent. A number out of
    range is none. -/
def readFloat? (s : String) : Option Fractional := do
  let (negative, cs) := Text.Numeral.takeSign s.toList
  let whole := cs.takeWhile Char.isDigit
  let (part, cs) := match cs.dropWhile Char.isDigit with
    | '.' :: cs => (cs.takeWhile Char.isDigit, cs.dropWhile Char.isDigit)
    | cs => ([], cs)
  if whole.isEmpty && part.isEmpty then none
  let exp ← readExponent? cs
  let cut ← Text.Binary64.ofDecimal? (digitsValue (whole ++ part)) (exp - part.length)
  return .finite (withSign negative cut)

/-- The number that digits of a base behind a mark of two characters denote, with a sign before or
    behind the mark. -/
def readMarked? (mark : List Char) (base : Nat) (cs : List Char) : Option Int :=
  let digits (cs : List Char) : Option Nat :=
    if cs.isEmpty then none else (Text.Numeral.readDigits base false 0 cs).toOption
  if mark.isPrefixOf cs then
    let cs := cs.drop mark.length
    let (negative, ds) := Text.Numeral.takeSign cs
    match (digits ds).bind fun n => (Text.Numeral.signed negative n).toOption with
    | some n => some n
    | none => (digits cs).map Int.ofNat
  else if ('-' :: mark).isPrefixOf cs then
    (digits (cs.drop (mark.length + 1))).bind fun n => (Text.Numeral.signed true n).toOption
  else none

/-- The integer a text denotes, if it fits into 64 bits with or without a sign. -/
def readInt? (s : String) : Option Int :=
  match Text.Numeral.readInt s, Text.Numeral.readNat s.toList with
  | .ok n, _ => some n
  | .error _, .ok n => some n
  | .error _, .error _ => none

/-- What a text stands for that starts with a digit or a sign. Underscores count for nothing. -/
def ofDigits (dates : Bool) (s : String) : Value :=
  if dates && Timestamp.isTimestamp s then timestamp
  else
    let bare := String.ofList (s.toList.filter (· != '_'))
    match readInt? bare, readFloat? bare with
    | some n, _ => int n
    | none, some x => float x
    | none, none =>
      match (readMarked? ['0', 'b'] 2 bare.toList).or (readMarked? ['0', 'o'] 8 bare.toList) with
      | some n => int n
      | none => str s

/-- What a text stands for that starts with a point. Underscores may stand between digits. -/
def ofPoint (s : String) : Value :=
  if Text.Numeral.underscoresOk s.toList then
    match readFloat? (String.ofList (s.toList.filter (· != '_'))) with
    | some x => float x
    | none => str s
  else str s

/-- The words that stand for something other than themselves. -/
def word? (s : String) : Option Value :=
  if ["", "~", "null", "Null", "NULL"].contains s then some null
  else if ["true", "True", "TRUE"].contains s then some (bool true)
  else if ["false", "False", "FALSE"].contains s then some (bool false)
  else if [".nan", ".NaN", ".NAN"].contains s then some (float .nan)
  else if [".inf", ".Inf", ".INF", "+.inf", "+.Inf", "+.INF"].contains s then
    some (float (.infinite false))
  else if ["-.inf", "-.Inf", "-.INF"].contains s then some (float (.infinite true))
  else none

/-- What a text stands for; points in time count only if `dates`. -/
def ofText (dates : Bool) (s : String) : Value :=
  match word? s, s.toList with
  | some v, _ => v
  | none, c :: _ =>
    if c == '.' then ofPoint s
    else if c.isDigit || c == '+' || c == '-' then ofDigits dates s
    else str s
  | none, [] => null

/-- A value as a number with a fraction, if it is a signed integer of 64 bits. -/
def toFloat? : Value → Option Value
  | int n =>
    if n < Text.Numeral.signedLimit then
      (Text.Binary64.integralPart? n.natAbs 1).map fun m => float (.finite (withSign (n < 0) m))
    else none
  | _ => none

/-- The tags that claim a type other than that of texts. -/
def claims : List String := [nullTag, "!!bool", "!!int", "!!float", "!!timestamp"]

/-- What a scalar with a given tag stands for. -/
def ofTagged (tag text : String) : Except Fault Value :=
  if tag == binaryTag then
    match Text.Base64.decode? text with
    | some bytes => .ok (str (Text.decodeUtf8 bytes))
    | none => .error ⟨0, .badBase64⟩
  else if !claims.contains tag then .ok (str text)
  else
    let v := ofText (tag == timestamp.tag) text
    if v.tag == tag then .ok v
    else
      match if tag == "!!float" then v.toFloat? else none with
      | some x => .ok x
      | none => .error ⟨0, .wrongTag v.tag text tag⟩

end Value

end Lantern.Yaml
