import Lantern.Diagnostic
import Lantern.Text.CharClass
import Lantern.Text.Numeral
import Lantern.Token

/-!
# From source text to tokens

The scanner passes over blanks and comments, then reads the longest lexeme that starts at the next
character. Every step works on the characters still to be read and the mark they start at, so that
a token's span is the stretch between two marks.
-/

namespace Lantern.Token

/-- What kind of text the scanner is passing over between tokens. -/
inductive Gap where
  /-- Blanks between tokens. -/
  | blank
  /-- The rest of a line comment. -/
  | line
  /-- The second character of a block comment's opening, begun at `opened`. -/
  | opening (opened : Mark)
  /-- The inside of a block comment begun at `opened`. -/
  | block (opened : Mark)
  /-- The second character of a block comment's closing. -/
  | closing
  deriving Repr, DecidableEq

/-- A blank of the language. -/
def isBlank (c : Char) : Bool := c == ' ' || c == '\t' || c == '\n' || c == '\r'

/-- Passes over blanks and comments up to the next token or the end. -/
def skipGap (file : Nat) : Gap → Mark → List Char → Checked (Mark × List Char)
  | .block opened, m, [] => Checked.fail (opened.upTo file m) "Unterminated block comment"
  | .opening opened, m, [] => Checked.fail (opened.upTo file m) "Unterminated block comment"
  | _, m, [] => pure (m, [])
  | .blank, m, c :: cs =>
    if isBlank c then skipGap file .blank (m.next c) cs
    else if c == '/' && cs.head? == some '/' then skipGap file .line (m.next c) cs
    else if c == '/' && cs.head? == some '*' then skipGap file (.opening m) (m.next c) cs
    else pure (m, c :: cs)
  | .line, m, c :: cs => skipGap file (if c == '\n' then .blank else .line) (m.next c) cs
  | .opening opened, m, c :: cs => skipGap file (.block opened) (m.next c) cs
  | .block opened, m, c :: cs =>
    if c == '*' && cs.head? == some '/' then skipGap file .closing (m.next c) cs
    else skipGap file (.block opened) (m.next c) cs
  | .closing, m, c :: cs => skipGap file .blank (m.next c) cs

/-- A character that may start a name. -/
def startsName (c : Char) : Bool := Text.isLetter c || c == '_'

/-- A character that may continue a name. -/
def continuesName (c : Char) : Bool := Text.isLetter c || Text.isDecimal c || c == '_'

/-- The lexeme a whole name stands for. -/
def ofName (name : String) : Lexeme :=
  match Keyword.ofName? name with
  | some word => .keyword word
  | none => .ident name

/-- The punctuator that starts with `c`, given the character after it, and whether it takes both. -/
def punct? (c : Char) (next : Option Char) : Option (Punct × Bool) :=
  let orPair (second : Char) (both one : Punct) : Option (Punct × Bool) :=
    if next == some second then some (both, true) else some (one, false)
  match c with
  | '(' => some (.lparen, false)
  | ')' => some (.rparen, false)
  | '\x7b' => some (.lbrace, false)
  | '\x7d' => some (.rbrace, false)
  | '[' => some (.lbracket, false)
  | ']' => some (.rbracket, false)
  | ';' => some (.semi, false)
  | ',' => some (.comma, false)
  | '?' => some (.question, false)
  | ':' => some (.colon, false)
  | '.' => some (.dot, false)
  | '^' => some (.caret, false)
  | '!' => orPair '=' .notEq .not
  | '%' => orPair '=' .percentAssign .percent
  | '*' => orPair '=' .starAssign .star
  | '/' => orPair '=' .slashAssign .slash
  | '<' => orPair '=' .le .lt
  | '>' => orPair '=' .ge .gt
  | '=' => orPair '=' .eqEq .assign
  | '&' => orPair '&' .andAnd .amp
  | '+' => if next == some '+' then some (.inc, true) else orPair '=' .plusAssign .plus
  | '-' => if next == some '-' then some (.dec, true) else orPair '=' .minusAssign .minus
  | '|' => if next == some '|' then some (.orOr, true) else none
  | _ => none

/-- A hexadecimal digit. -/
def isHexDigit (c : Char) : Bool :=
  ('0' ≤ c && c ≤ '9') || ('a' ≤ c && c ≤ 'f') || ('A' ≤ c && c ≤ 'F')

/-- Splits the characters of a number off: `0x` and hexadecimal digits, or decimal digits. -/
def splitNumber : List Char → List Char × List Char
  | '0' :: x :: cs =>
    if x == 'x' || x == 'X' then
      let (digits, rest) := cs.span isHexDigit
      ('0' :: x :: digits, rest)
    else ('0' :: x :: cs).span Text.isDecimal
  | cs => cs.span Text.isDecimal

/-- The value of a number as written: modulo 2^64 with a warning when it leaves the signed range,
    and `-1` when it leaves 64 bits altogether. -/
def numberValue (at_ : Span) (digits : List Char) : Checked Int64 := do
  let text := String.ofList digits
  match Text.Numeral.readNat digits with
  | .ok n =>
    if Text.Numeral.signedLimit ≤ n then
      Checked.warn .overflow at_ ("Integer constant overflow: " ++ text)
    return Int64.ofNat n
  | .error .outOfRange =>
    Checked.warn .overflow at_ ("Integer constant overflow: " ++ text)
    return -1
  | .error .malformed => Checked.fail at_ ("Invalid number literal: " ++ text)

/-- The character a one-letter escape stands for. -/
def escape? : Char → Option Char
  | 'n' => some '\n'
  | 't' => some '\t'
  | 'r' => some '\r'
  | '0' => some (Char.ofNat 0)
  | 'a' => some (Char.ofNat 7)
  | 'b' => some (Char.ofNat 8)
  | 'e' => some (Char.ofNat 0x1B)
  | '\\' => some '\\'
  | '\'' => some '\''
  | '"' => some '"'
  | _ => none

/-- The character with the code two hexadecimal digits give. -/
def hexChar (a b : Char) : Char :=
  Char.ofNat ((Text.Numeral.digitValue? a).getD 0 * 16 + (Text.Numeral.digitValue? b).getD 0)

/-- Reads the inside of a string literal begun at `start`, up to its closing quote. `read` holds the
    characters so far, latest first. -/
def stringBody (file : Nat) (start : Mark) :
    List Char → Mark → List Char → Checked (String × Mark × List Char)
  | _, m, [] => Checked.fail (start.upTo file m) "Unterminated string literal"
  | read, m, c :: cs =>
    if c == '\n' then Checked.fail (start.upTo file m) "Unterminated string literal"
    else if c == '"' then pure (String.ofList read.reverse, m.next c, cs)
    else if c == '\\' then
      let incomplete (at_ : Mark) : Checked (String × Mark × List Char) :=
        Checked.fail (start.upTo file at_)
          "Incomplete hex escape sequence '\\x' - expected 2 hex digits"
      match cs with
      | [] => Checked.fail ((m.next c).upTo file (m.next c)) "Unterminated escape sequence"
      | e :: cs =>
        let m := (m.next c).next e
        if e == 'x' then
          match cs with
          | [] => incomplete m
          | a :: cs =>
            if !isHexDigit a then incomplete m
            else
              match cs with
              | [] => incomplete (m.next a)
              | b :: cs =>
                if !isHexDigit b then incomplete (m.next a)
                else stringBody file start (hexChar a b :: read) ((m.next a).next b) cs
        else
          match escape? e with
          | some v => stringBody file start (v :: read) m cs
          | none => do
            Checked.warn .unknownEscape (start.upTo file m)
              ("Unrecognized escape sequence '\\" ++ e.toString ++ "'")
            stringBody file start (e :: read) m cs
    else stringBody file start (c :: read) (m.next c) cs

/-- Reads the lexeme that starts with `c`, which stands at `m`. -/
def readLexeme (file : Nat) (m : Mark) (c : Char) (cs : List Char) :
    Checked (Lexeme × Mark × List Char) := do
  if startsName c then
    let (name, rest) := (c :: cs).span continuesName
    return (ofName (String.ofList name), m.past name, rest)
  else if Text.isDecimal c then
    let (digits, rest) := splitNumber (c :: cs)
    let stop := m.past digits
    match rest.head? with
    | some next =>
      if startsName next then
        Checked.fail (m.upTo file stop)
          ("Invalid number literal: " ++ String.ofList digits ++ next.toString)
    | none => pure ()
    return (.number (← numberValue (m.upTo file stop) digits), stop, rest)
  else if c == '"' then
    let (value, stop, rest) ← stringBody file m [] (m.next c) cs
    return (.text value, stop, rest)
  else
    match punct? c cs.head? with
    | some (mark, false) => return (.punct mark, m.next c, cs)
    | some (mark, true) => return (.punct mark, m.past (c :: cs.take 1), cs.drop 1)
    | none =>
      Checked.fail (m.upTo file (m.next c)) ("Unexpected character: '" ++ c.toString ++ "'")

/-- Reads tokens from the mark `m` on, the end of the text included. The first argument bounds the
    number of tokens. -/
def readFrom (file : Nat) : Nat → Mark → List Char → Checked (List Token)
  | 0, _, _ => pure []
  | bound + 1, m, cs => do
    let (m, cs) ← skipGap file .blank m cs
    match cs with
    | [] => return [⟨.endOfFile, m.upTo file m⟩]
    | c :: cs =>
      let (lexeme, stop, rest) ← readLexeme file m c cs
      return ⟨lexeme, m.upTo file stop⟩ :: (← readFrom file bound stop rest)

/-- The tokens of a source text. Every token takes at least one character, so the text's length and
    the end of the text bound their number. -/
def readAll (file : Nat) (source : String) : Checked (List Token) :=
  let cs := source.toList
  readFrom file (cs.length + 1) Mark.start cs

end Lantern.Token
