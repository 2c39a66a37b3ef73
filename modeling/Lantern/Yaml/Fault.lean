/-!
# Places and faults in a document

A place is given by line and column, both counted from zero. A fault says what is wrong and, as far
as it is known, on which line.
-/

namespace Lantern.Yaml

/-- A place in a document. -/
structure Mark where
  /-- The line, from zero. -/
  line : Nat := 0
  /-- The column, from zero. -/
  column : Nat := 0
  deriving Repr, DecidableEq

/-- What is wrong with a document. -/
inductive Problem where
  /-- A byte that starts no character. -/
  | leadingOctet
  /-- The end within a character. -/
  | incompleteOctets
  /-- A byte that does not go on with a character. -/
  | trailingOctet
  /-- A character written in more bytes than it needs. -/
  | overlongOctets
  /-- Bytes for something that is no character. -/
  | noCharacter
  /-- The end within a unit of two bytes. -/
  | incompleteUnit
  /-- The second unit of a pair without the first. -/
  | strayLowSurrogate
  /-- The first unit of a pair at the end. -/
  | incompletePair
  /-- The first unit of a pair without the second. -/
  | missingLowSurrogate
  /-- A control character. -/
  | controlCharacter
  /-- A character with which nothing starts. -/
  | strayCharacter
  /-- A key without its colon. -/
  | missingColon
  /-- A dash where no item may start. -/
  | strayEntry
  /-- A question mark where no key may start. -/
  | strayKey
  /-- A colon where no value may start. -/
  | strayValue
  /-- A directive that is not known. -/
  | unknownDirective
  /-- A directive without a name. -/
  | missingDirectiveName
  /-- A directive's name that goes on with another character. -/
  | strayDirectiveName
  /-- More on a line than belongs there. -/
  | missingLineEnd
  /-- A version without a number. -/
  | missingVersion
  /-- A version's number of too many digits. -/
  | longVersion
  /-- A version without its point. -/
  | missingPoint
  /-- A tag's handle without its exclamation mark. -/
  | missingHandle
  /-- A directive's handle without a blank behind it. -/
  | missingBlank
  /-- A tag without a blank or a line's end behind it. -/
  | missingBlankOrBreak
  /-- A tag without its name. -/
  | missingTagName
  /-- A percent sign in a tag without two digits behind it. -/
  | missingOctet
  /-- An octet in a tag that starts no character. -/
  | badLeadingOctet
  /-- An octet in a tag that does not go on with a character. -/
  | badTrailingOctet
  /-- A verbatim tag without its closing bracket. -/
  | missingTagEnd
  /-- An anchor or alias without a name. -/
  | missingAnchorName
  /-- An indentation of zero asked for. -/
  | zeroIndentation
  /-- A tab in the indentation of a block. -/
  | tabInBlock
  /-- A tab in the indentation of a text without quotes. -/
  | tabInPlain
  /-- The mark of a document inside quotes. -/
  | documentInQuotes
  /-- The end of the text inside quotes. -/
  | endInQuotes
  /-- An escape that is not known. -/
  | unknownEscape
  /-- An escape with too few hexadecimal digits. -/
  | missingHexDigit
  /-- An escape for something that is no character. -/
  | badCodePoint
  /-- Directives without the start of a document behind them. -/
  | missingDocumentStart
  /-- Something else where a node belongs. -/
  | missingNode
  /-- Something else where an item with a dash belongs. -/
  | missingDash
  /-- Something else where a key belongs. -/
  | missingKey
  /-- Neither comma nor bracket behind an item. -/
  | missingCommaOrBracket
  /-- Neither comma nor brace behind an entry. -/
  | missingCommaOrBrace
  /-- A tag's handle that no directive defines. -/
  | undefinedHandle
  /-- A second version directive. -/
  | repeatedVersion
  /-- A version other than 1.1. -/
  | unknownVersion
  /-- A second directive for one handle. -/
  | repeatedHandle
  /-- An alias of an anchor that is not there. -/
  | unknownAnchor (name : String)
  /-- An alias inside the node it stands for. -/
  | selfReference (name : String)
  /-- Too much that is named over and over. -/
  | excessiveAliasing
  /-- Brackets or indentation nested too deeply. -/
  | tooDeep
  /-- A scalar that is not of the type its tag claims. -/
  | wrongTag (found text claimed : String)
  /-- Something other than maps to take entries over from. -/
  | mergeWithoutMap
  /-- A text that is not in base 64. -/
  | badBase64
  deriving Repr, DecidableEq

/-- What is said about a problem. -/
def Problem.message : Problem → String
  | leadingOctet => "invalid leading UTF-8 octet"
  | incompleteOctets => "incomplete UTF-8 octet sequence"
  | trailingOctet => "invalid trailing UTF-8 octet"
  | overlongOctets => "invalid length of a UTF-8 sequence"
  | noCharacter => "invalid Unicode character"
  | incompleteUnit => "incomplete UTF-16 character"
  | strayLowSurrogate => "unexpected low surrogate area"
  | incompletePair => "incomplete UTF-16 surrogate pair"
  | missingLowSurrogate => "expected low surrogate area"
  | controlCharacter => "control characters are not allowed"
  | strayCharacter => "found character that cannot start any token"
  | missingColon => "could not find expected ':'"
  | strayEntry => "block sequence entries are not allowed in this context"
  | strayKey => "mapping keys are not allowed in this context"
  | strayValue => "mapping values are not allowed in this context"
  | unknownDirective => "found unknown directive name"
  | missingDirectiveName => "could not find expected directive name"
  | strayDirectiveName => "found unexpected non-alphabetical character"
  | missingLineEnd => "did not find expected comment or line break"
  | missingVersion => "did not find expected version number"
  | longVersion => "found extremely long version number"
  | missingPoint => "did not find expected digit or '.' character"
  | missingHandle => "did not find expected '!'"
  | missingBlank => "did not find expected whitespace"
  | missingBlankOrBreak => "did not find expected whitespace or line break"
  | missingTagName => "did not find expected tag URI"
  | missingOctet => "did not find URI escaped octet"
  | badLeadingOctet => "found an incorrect leading UTF-8 octet"
  | badTrailingOctet => "found an incorrect trailing UTF-8 octet"
  | missingTagEnd => "did not find the expected '>'"
  | missingAnchorName => "did not find expected alphabetic or numeric character"
  | zeroIndentation => "found an indentation indicator equal to 0"
  | tabInBlock => "found a tab character where an indentation space is expected"
  | tabInPlain => "found a tab character that violates indentation"
  | documentInQuotes => "found unexpected document indicator"
  | endInQuotes => "found unexpected end of stream"
  | unknownEscape => "found unknown escape character"
  | missingHexDigit => "did not find expected hexdecimal number"
  | badCodePoint => "found invalid Unicode character escape code"
  | missingDocumentStart => "did not find expected <document start>"
  | missingNode => "did not find expected node content"
  | missingDash => "did not find expected '-' indicator"
  | missingKey => "did not find expected key"
  | missingCommaOrBracket => "did not find expected ',' or ']'"
  | missingCommaOrBrace => "did not find expected ',' or '\x7d'"
  | undefinedHandle => "found undefined tag handle"
  | repeatedVersion => "found duplicate %YAML directive"
  | unknownVersion => "found incompatible YAML document"
  | repeatedHandle => "found duplicate %TAG directive"
  | unknownAnchor name => "unknown anchor '" ++ name ++ "' referenced"
  | selfReference name => "anchor '" ++ name ++ "' value contains itself"
  | excessiveAliasing => "document contains excessive aliasing"
  | tooDeep => "exceeded max depth of 10000"
  | wrongTag found text claimed =>
    "cannot decode " ++ found ++ " `" ++ text ++ "` as a " ++ claimed
  | mergeWithoutMap => "map merge requires map or sequence of maps as the value"
  | badBase64 => "!!binary value contains invalid base64 data"

/-- A problem and the line it is reported for. -/
structure Fault where
  /-- The line, from one; zero if none is given. -/
  line : Nat := 0
  /-- What is wrong. -/
  problem : Problem
  deriving Repr, DecidableEq

namespace Fault

/-- A problem at `here` with something that starts at `start`. The line is that of the start, or else
    of the place itself; a place on the first line counts as none. -/
def reading (start here : Mark) (problem : Problem) : Fault :=
  if start.line != 0 then ⟨start.line + 1, problem⟩
  else if here.line != 0 then ⟨here.line + 1, problem⟩
  else ⟨0, problem⟩

/-- A problem with a token at `here` inside something that starts at `start`. The line before the
    one it is on is given. -/
def nesting (start here : Mark) (problem : Problem) : Fault :=
  ⟨if start.line != 0 then start.line else here.line, problem⟩

/-- What is said about a fault. -/
def message (f : Fault) : String :=
  let place := if f.line == 0 then "" else "line " ++ toString f.line ++ ": "
  "yaml: " ++ place ++ f.problem.message

end Fault

end Lantern.Yaml
