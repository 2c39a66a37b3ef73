import Lantern.Yaml.Gap

/-!
# Scalars in quotes

In single quotes, two quotes stand for one and there are no other escapes. In double quotes a
backslash starts an escape: a letter for a certain character, a number of hexadecimal digits, or a
line break that joins two lines.
-/

namespace Lantern.Yaml.Quoted

/-- The text of a scalar that ends behind a gap. -/
def finish (text : List Char) (gap : Gap) : String := String.ofList (gap.onto text).reverse

/-- Reads up to the closing single quote, given the text so far, the gap behind that and the
    place. -/
def readSingleFrom (start : Mark) :
    List Char → Gap → Mark → List Char → Except Fault (String × Cursor)
  | _, _, here, [] => .error (.reading start here .endInQuotes)
  | text, gap, here, '\'' :: '\'' :: cs =>
    readSingleFrom start ('\'' :: gap.onto text) .none ((here.after '\'').after '\'') cs
  | text, gap, here, c :: cs =>
    if isBlank c then readSingleFrom start text (gap.addBlank c) (here.after c) cs
    else if isBreak c then readSingleFrom start text (gap.addBreak c) (here.after c) cs
    else if here.column == 0 && atDocumentMark (c :: cs) then
      .error (.reading start here .documentInQuotes)
    else if c == '\'' then .ok (finish text gap, ⟨here.after c, cs⟩)
    else readSingleFrom start (c :: gap.onto text) .none (here.after c) cs

/-- The character that a backslash and one further character stand for. -/
def escaped? (c : Char) : Option Char :=
  match c with
  | '0' => some (Char.ofNat 0x00)
  | 'a' => some (Char.ofNat 0x07)
  | 'b' => some (Char.ofNat 0x08)
  | 't' | '\t' => some '\t'
  | 'n' => some '\n'
  | 'v' => some (Char.ofNat 0x0B)
  | 'f' => some (Char.ofNat 0x0C)
  | 'r' => some '\r'
  | 'e' => some (Char.ofNat 0x1B)
  | ' ' | '"' | '\'' | '\\' => some c
  | 'N' => some (Char.ofNat 0x85)
  | '_' => some (Char.ofNat 0xA0)
  | 'L' => some (Char.ofNat 0x2028)
  | 'P' => some (Char.ofNat 0x2029)
  | _ => none

/-- The number of hexadecimal digits behind a backslash and one further character. -/
def hexDigits? (c : Char) : Option Nat :=
  match c with
  | 'x' => some 2
  | 'u' => some 4
  | 'U' => some 8
  | _ => none

/-- The value of a hexadecimal digit. -/
def hexValue? (c : Char) : Option Nat :=
  if c.isDigit then some (c.toNat - '0'.toNat)
  else if 'a' ≤ c && c ≤ 'f' then some (c.toNat - 'a'.toNat + 10)
  else if 'A' ≤ c && c ≤ 'F' then some (c.toNat - 'A'.toNat + 10)
  else none

/-- Whether a number is that of a character. -/
def isCodePoint (n : Nat) : Bool := n < 0xD800 || (0xE000 ≤ n && n < 0x110000)

/-- Reads up to the closing double quote, given the digits of an escape that are still to come with
    their value so far, the text so far, the gap behind that and the place. -/
def readDoubleFrom (start : Mark) :
    Option (Nat × Nat) → List Char → Gap → Mark → List Char → Except Fault (String × Cursor)
  | some _, _, _, here, [] => .error (.reading start here .missingHexDigit)
  | none, _, _, here, [] => .error (.reading start here .endInQuotes)
  | some (left, value), text, gap, here, c :: cs =>
    match hexValue? c with
    | none => .error (.reading start here .missingHexDigit)
    | some d =>
      let value := value * 16 + d
      if 1 < left then
        readDoubleFrom start (some (left - 1, value)) text gap (here.after c) cs
      else if isCodePoint value then
        readDoubleFrom start none (Char.ofNat value :: text) gap (here.after c) cs
      else .error (.reading start here .badCodePoint)
  | none, text, gap, here, '\\' :: c :: cs =>
    let text := gap.onto text
    let behind := (here.after '\\').after c
    if isBreak c then readDoubleFrom start none text (.breaks none []) behind cs
    else
      match escaped? c, hexDigits? c with
      | some d, _ => readDoubleFrom start none (d :: text) .none behind cs
      | none, some n => readDoubleFrom start (some (n, 0)) text .none behind cs
      | none, none => .error (.reading start here .unknownEscape)
  | none, text, gap, here, c :: cs =>
    if isBlank c then readDoubleFrom start none text (gap.addBlank c) (here.after c) cs
    else if isBreak c then readDoubleFrom start none text (gap.addBreak c) (here.after c) cs
    else if here.column == 0 && atDocumentMark (c :: cs) then
      .error (.reading start here .documentInQuotes)
    else if c == '"' then .ok (finish text gap, ⟨here.after c, cs⟩)
    else if c == '\\' then .error (.reading start here .unknownEscape)
    else readDoubleFrom start none (c :: gap.onto text) .none (here.after c) cs

/-- Reads a scalar whose opening quote is `quote`; the cursor is at that quote. -/
def read (quote : Char) (c : Cursor) : Except Fault (String × Cursor) :=
  let inside := c.skip
  if quote == '\'' then readSingleFrom c.mark [] .none inside.mark inside.rest
  else readDoubleFrom c.mark none [] .none inside.mark inside.rest

end Lantern.Yaml.Quoted
