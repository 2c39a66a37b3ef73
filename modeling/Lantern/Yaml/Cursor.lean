import Lantern.Yaml.Encoding

/-!
# Reading a document from left to right

A cursor is a place in a document and what follows it. Line breaks are unified before reading starts:
carriage returns, with or without a line feed, and next-line characters become line feeds, while line
and paragraph separators stay what they are.
-/

namespace Lantern.Yaml

/-- A space or a tab. -/
def isBlank (c : Char) : Bool := c == ' ' || c == '\t'

/-- A line break. -/
def isBreak (c : Char) : Bool := c == '\n' || c.toNat == 0x2028 || c.toNat == 0x2029

/-- A character of names. -/
def isNameChar (c : Char) : Bool := c.isAlphanum || c == '_' || c == '-'

/-- A character that opens, closes or divides lists and maps in brackets. -/
def isBracketMark (c : Char) : Bool :=
  c == ',' || c == '[' || c == ']' || c == '\x7b' || c == '\x7d'

/-- Whether a blank, a line break or the end follows. -/
def atSpace : List Char → Bool
  | [] => true
  | c :: _ => isBlank c || isBreak c

/-- Whether a line break or the end follows. -/
def atLineEnd : List Char → Bool
  | [] => true
  | c :: _ => isBreak c

/-- Whether the mark of a document's start or end follows. -/
def atDocumentMark : List Char → Bool
  | '-' :: '-' :: '-' :: cs | '.' :: '.' :: '.' :: cs => atSpace cs
  | _ => false

/-- The mark that may stand at the start of a text and of its lines. -/
def byteOrderMark : Char := Char.ofNat 0xFEFF

/-- A text with its line breaks unified. -/
def unifyBreaks : List Char → List Char
  | [] => []
  | '\r' :: '\n' :: cs => '\n' :: unifyBreaks cs
  | c :: cs => (if c == '\r' || c.toNat == 0x85 then '\n' else c) :: unifyBreaks cs

/-- The place behind a character. -/
def Mark.after (m : Mark) (c : Char) : Mark :=
  if isBreak c then ⟨m.line + 1, 0⟩ else ⟨m.line, m.column + 1⟩

/-- A place and what follows it. -/
structure Cursor where
  /-- The place. -/
  mark : Mark := {}
  /-- What follows. -/
  rest : List Char
  deriving Repr, DecidableEq

namespace Cursor

/-- The start of a text. -/
def start (cs : List Char) : Cursor := ⟨{}, unifyBreaks cs⟩

/-- Passes over one character. -/
def skip (c : Cursor) : Cursor :=
  match c.rest with
  | [] => c
  | ch :: cs => ⟨c.mark.after ch, cs⟩

/-- Passes over `n` characters. -/
def skipMany : Nat → Cursor → Cursor
  | 0, c => c
  | n + 1, c => skipMany n c.skip

/-- Splits characters off from a place as long as they satisfy `p`. -/
def spanFrom (p : Char → Bool) : Mark → List Char → List Char × Cursor
  | m, [] => ([], ⟨m, []⟩)
  | m, c :: cs =>
    if p c then
      let (taken, rest) := spanFrom p (m.after c) cs
      (c :: taken, rest)
    else ([], ⟨m, c :: cs⟩)

/-- Splits characters off as long as they satisfy `p`. -/
def span (p : Char → Bool) (c : Cursor) : List Char × Cursor := spanFrom p c.mark c.rest

/-- Passes over characters that satisfy `p`. -/
def skipWhile (p : Char → Bool) (c : Cursor) : Cursor := (c.span p).2

/-- Passes over the rest of the line up to its break. -/
def skipLine (c : Cursor) : Cursor := c.skipWhile fun ch => !isBreak ch

/-- Passes over blanks and a comment behind them; without a comment it stays. -/
def skipComment (c : Cursor) : Cursor :=
  let behind := c.skipWhile isBlank
  match behind.rest with
  | '#' :: _ => behind.skipLine
  | _ => c

end Cursor

end Lantern.Yaml
