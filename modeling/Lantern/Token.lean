import Lantern.Span

/-!
# Tokens

The words of the language: names, literals, keywords and punctuators. `Lexeme.spelling` writes one
back as source text.
-/

namespace Lantern

/-- A reserved word. -/
inductive Keyword where
  | var_ | func | class_ | extends_ | constructor_ | static_ | override | new_ | this_ | super
  | if_ | else_ | while_ | do_ | for_ | switch | case_ | default_ | break_ | continue_ | return_
  | throw_ | try_ | catch_ | finally_ | print | true_ | false_
  deriving Repr, DecidableEq, BEq

namespace Keyword

/-- Every reserved word, in the order of their kinds. -/
def all : List Keyword :=
  [var_, func, class_, extends_, constructor_, static_, override, new_, this_, super, if_, else_,
   while_, do_, for_, switch, case_, default_, break_, continue_, return_, throw_, try_, catch_,
   finally_, print, true_, false_]

/-- The word itself. -/
def spelling : Keyword → String
  | var_ => "var"
  | func => "func"
  | class_ => "class"
  | extends_ => "extends"
  | constructor_ => "constructor"
  | static_ => "static"
  | override => "override"
  | new_ => "new"
  | this_ => "this"
  | super => "super"
  | if_ => "if"
  | else_ => "else"
  | while_ => "while"
  | do_ => "do"
  | for_ => "for"
  | switch => "switch"
  | case_ => "case"
  | default_ => "default"
  | break_ => "break"
  | continue_ => "continue"
  | return_ => "return"
  | throw_ => "throw"
  | try_ => "try"
  | catch_ => "catch"
  | finally_ => "finally"
  | print => "print"
  | true_ => "true"
  | false_ => "false"

/-- The reserved word a name spells, if it is one. -/
def ofName? (name : String) : Option Keyword := all.find? (·.spelling == name)

end Keyword

/-- A punctuation mark or operator. -/
inductive Punct where
  | lparen | rparen | lbrace | rbrace | lbracket | rbracket | semi | comma | colon | question | dot
  | assign | plusAssign | minusAssign | starAssign | slashAssign | percentAssign
  | plus | minus | star | slash | percent | caret | amp
  | eqEq | notEq | lt | gt | ge | le | andAnd | orOr | not | inc | dec
  deriving Repr, DecidableEq, BEq

namespace Punct

/-- Every punctuator, in the order of their kinds. -/
def all : List Punct :=
  [lparen, rparen, lbrace, rbrace, lbracket, rbracket, semi, comma, colon, question, dot, assign,
   plusAssign, minusAssign, starAssign, slashAssign, percentAssign, plus, minus, star, slash,
   percent, caret, amp, eqEq, notEq, lt, gt, ge, le, andAnd, orOr, not, inc, dec]

/-- The punctuator itself. -/
def spelling : Punct → String
  | lparen => "("
  | rparen => ")"
  | lbrace => "\x7b"
  | rbrace => "\x7d"
  | lbracket => "["
  | rbracket => "]"
  | semi => ";"
  | comma => ","
  | colon => ":"
  | question => "?"
  | dot => "."
  | assign => "="
  | plusAssign => "+="
  | minusAssign => "-="
  | starAssign => "*="
  | slashAssign => "/="
  | percentAssign => "%="
  | plus => "+"
  | minus => "-"
  | star => "*"
  | slash => "/"
  | percent => "%"
  | caret => "^"
  | amp => "&"
  | eqEq => "=="
  | notEq => "!="
  | lt => "<"
  | gt => ">"
  | ge => ">="
  | le => "<="
  | andAnd => "&&"
  | orOr => "||"
  | not => "!"
  | inc => "++"
  | dec => "--"

end Punct

/-- The content of a token. -/
inductive Lexeme where
  /-- The end of the text. -/
  | endOfFile
  /-- A name. -/
  | ident (name : String)
  /-- An integer literal by its value. -/
  | number (value : Int64)
  /-- A string literal by its value. -/
  | text (value : String)
  /-- A reserved word. -/
  | keyword (word : Keyword)
  /-- A punctuation mark or operator. -/
  | punct (mark : Punct)
  deriving Repr, DecidableEq

namespace Lexeme

/-- The name of the kind of a lexeme: a keyword or punctuator is a kind of its own. -/
def kindName : Lexeme → String
  | endOfFile => "end of file"
  | ident _ => "identifier"
  | number _ => "number"
  | text _ => "string"
  | keyword word => word.spelling
  | punct mark => mark.spelling

/-- The names of all kinds, in order. -/
def kindNames : List String :=
  ["end of file", "identifier", "number", "string"] ++ Keyword.all.map Keyword.spelling ++
    Punct.all.map Punct.spelling

/-- What a lexeme carries beyond its kind, as text. -/
def value : Lexeme → String
  | ident name => name
  | number n => toString n.toInt
  | text s => s
  | _ => ""

/-- A character as written inside a string literal. -/
def spellChar (c : Char) : List Char :=
  if c == '\\' then ['\\', '\\']
  else if c == '"' then ['\\', '"']
  else if c == '\n' then ['\\', 'n']
  else [c]

/-- A lexeme as source text. -/
def spelling : Lexeme → String
  | endOfFile => ""
  | ident name => name
  | number n => toString n.toInt
  | text s => String.ofList ('"' :: s.toList.flatMap spellChar ++ ['"'])
  | keyword word => word.spelling
  | punct mark => mark.spelling

end Lexeme

/-- A lexeme and where it stands. -/
structure Token where
  /-- What it is. -/
  lexeme : Lexeme
  /-- Where it stands. -/
  span : Span
  deriving Repr, DecidableEq

/-- The kind number of a keyword, counting the four kinds before them. -/
def Keyword.kindIndex (word : Keyword) : Nat := 4 + Keyword.all.idxOf word

end Lantern
