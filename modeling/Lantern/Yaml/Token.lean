import Lantern.Yaml.Cursor

/-!
# Tokens of a document

A document is read as tokens first. Besides what is written, there are tokens for what only
indentation or a later colon shows: the start and end of lists and maps, and keys without a question
mark.
-/

namespace Lantern.Yaml

/-- What a token is. -/
inductive Token.Kind where
  /-- The end of the text. -/
  | streamEnd
  /-- A directive that gives the version. -/
  | version (major minor : Nat)
  /-- A directive that says what a handle stands for. -/
  | handle (name meaning : String)
  /-- The start of a document. -/
  | documentStart
  /-- The end of a document. -/
  | documentEnd
  /-- The start of a list with dashes. -/
  | seqStart
  /-- The start of a map by indentation. -/
  | mapStart
  /-- The end of a list or map by indentation. -/
  | blockEnd
  /-- An opening square bracket. -/
  | openBracket
  /-- A closing square bracket. -/
  | closeBracket
  /-- An opening brace. -/
  | openBrace
  /-- A closing brace. -/
  | closeBrace
  /-- A dash. -/
  | dash
  /-- A comma. -/
  | comma
  /-- The start of a key. -/
  | key
  /-- The colon before a value. -/
  | value
  /-- A node that is given elsewhere. -/
  | alias_ (name : String)
  /-- A name for the node that follows. -/
  | anchor (name : String)
  /-- A tag for the node that follows: a handle and what is behind it. -/
  | tag (handle suffix : String)
  /-- A scalar, with or without quotes. -/
  | scalar (text : String) (plain : Bool)
  deriving Repr, DecidableEq

/-- A token and where it starts. -/
structure Token where
  /-- What it is. -/
  kind : Token.Kind
  /-- Where it starts. -/
  mark : Mark
  deriving Repr, DecidableEq

end Lantern.Yaml
