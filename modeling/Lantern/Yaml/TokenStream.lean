import Lantern.Yaml.Block
import Lantern.Yaml.Plain
import Lantern.Yaml.Property

/-!
# From text to tokens

The tokens of a text are read one after another, as they are asked for. Outside of brackets the
indentation decides where lists and maps start and end: one starts at a column deeper than the
innermost that is open, and a line closes all that are deeper than itself. Whether a scalar is a key
shows only at the colon behind it, so the place of each possible key is kept, one for every level of
brackets, and the token for it is put in when the colon comes. A token is handed out when two more
have been read and it can no longer turn out to be the start of a key.
-/

namespace Lantern.Yaml

/-- The start of something that may turn out to be a key. -/
structure PendingKey where
  /-- Where it starts. -/
  mark : Mark
  /-- The number of tokens before it. -/
  before : Nat
  /-- Whether nothing but a key may stand here. -/
  required : Bool
  deriving Repr, DecidableEq

/-- Tokens read from the start of a text up to a place. -/
structure TokenStream where
  /-- The place. -/
  cursor : Cursor
  /-- The number of characters of the whole text. -/
  size : Nat
  /-- What is at fault behind the text. -/
  broken : Option Fault := none
  /-- The number of tokens that have been handed out. -/
  passed : Nat := 0
  /-- The tokens that have been read and not handed out. -/
  queue : List Token := []
  /-- The columns of the lists and maps that are open by indentation, innermost first. -/
  columns : List Nat := []
  /-- Whether a key may start here. -/
  keyAllowed : Bool := true
  /-- What may be a key on this level of brackets. -/
  pending : Option PendingKey := none
  /-- The same for the levels around this one, innermost first. -/
  outer : List (Option PendingKey) := []
  deriving Repr, DecidableEq

namespace TokenStream

/-- The tokens of a document, none of them read. -/
def start (d : Script) : TokenStream :=
  { cursor := .start d.chars, size := d.chars.length, broken := d.problem.map fun p => ⟨0, p⟩ }

/-- Whether the place is inside brackets. -/
def inBrackets (s : TokenStream) : Bool := !s.outer.isEmpty

/-- The least indentation of something inside the innermost list or map. -/
def innerIndent (s : TokenStream) : Nat :=
  match s.columns with
  | [] => 0
  | k :: _ => k + 1

/-- A problem at the place with something that starts at `start`. -/
def fault (s : TokenStream) (start : Mark) (p : Problem) : Fault :=
  .reading start s.cursor.mark p

/-- The number of tokens that have been read. -/
def count (s : TokenStream) : Nat := s.passed + s.queue.length

/-- Adds a token. -/
def push (s : TokenStream) (kind : Token.Kind) (mark : Mark) : TokenStream :=
  { s with queue := s.queue ++ [⟨kind, mark⟩] }

/-- Puts a token in behind the first `before` tokens. -/
def insert (s : TokenStream) (before : Nat) (kind : Token.Kind) (mark : Mark) : TokenStream :=
  { s with queue := s.queue.insertIdx (before - s.passed) ⟨kind, mark⟩ }

/-- Adds a token of `width` characters at the place and passes over it. -/
def take (s : TokenStream) (kind : Token.Kind) (width : Nat) : TokenStream :=
  { s.push kind s.cursor.mark with cursor := s.cursor.skipMany width }

/-- How deeply brackets, and lists and maps by indentation, may be nested. -/
def maxDepth : Nat := 10000

/-- Starts a list or map at a column outside of brackets, if none is open there; its token goes behind
    the first `before` tokens. -/
def openBlock (s : TokenStream) (before : Nat) (kind : Token.Kind) (mark : Mark) :
    Except Fault TokenStream :=
  if s.inBrackets || mark.column < s.innerIndent then .ok s
  else if maxDepth ≤ s.columns.length then .error (s.fault {} .tooDeep)
  else .ok { s.insert before kind mark with columns := mark.column :: s.columns }

/-- Ends the lists and maps that satisfy `deeper`, outside of brackets. -/
def closeBlocks (s : TokenStream) (deeper : Nat → Bool) (mark : Mark) : TokenStream :=
  if s.inBrackets then s
  else
    { s with
      queue := s.queue ++ (s.columns.takeWhile deeper).map (fun _ => ⟨.blockEnd, mark⟩)
      columns := s.columns.dropWhile deeper }

/-- Gives up what may be a key on this level. -/
def dropKey (s : TokenStream) : Except Fault TokenStream :=
  match s.pending with
  | some k => if k.required then .error (s.fault k.mark .missingColon) else .ok { s with pending := none }
  | none => .ok s

/-- Notes that a key may start at the place. -/
def noteKey (s : TokenStream) : Except Fault TokenStream := do
  if s.keyAllowed then
    let here := s.cursor.mark
    let required := !s.inBrackets && s.columns.head? == some here.column
    return { ← s.dropKey with pending := some ⟨here, s.count, required⟩ }
  else return s

/-- Whether something may still turn out to be a key: its colon has to be on the same line and not too
    far away. -/
def isPossible (s : TokenStream) (k : PendingKey) : Except Fault Bool :=
  let here := s.cursor.mark
  if k.mark.line < here.line || k.mark.column + 1024 < here.column then
    if k.required then .error (s.fault k.mark .missingColon) else .ok false
  else .ok true

/-- The possible key that a colon at the place belongs to. -/
def keyAt? (s : TokenStream) : Except Fault (Option PendingKey) := do
  match s.pending with
  | none => return none
  | some k => return if ← s.isPossible k then some k else none

/-- Ends everything that indentation keeps open and forgets about keys. -/
def closeAll (s : TokenStream) : Except Fault TokenStream := do
  let s ← (s.closeBlocks (fun _ => true) s.cursor.mark).dropKey
  return { s with keyAllowed := false }

/-- Reads the end of the text. -/
def readEnd (s : TokenStream) : Except Fault TokenStream := do
  let here := s.cursor.mark
  let mark : Mark := if here.column == 0 then here else ⟨here.line + 1, 0⟩
  let s ← { s with cursor := ⟨mark, []⟩ }.closeAll
  return s.push .streamEnd mark

/-- Reads a directive. -/
def readDirective (s : TokenStream) : Except Fault TokenStream := do
  let s ← s.closeAll
  let (kind, behind) ← Property.readDirective s.cursor
  return { s.push kind s.cursor.mark with cursor := behind }

/-- Reads the mark of a document's start or end. -/
def readDocumentMark (s : TokenStream) (kind : Token.Kind) : Except Fault TokenStream := do
  return (← s.closeAll).take kind 3

/-- Reads an opening bracket. -/
def readOpening (s : TokenStream) (kind : Token.Kind) : Except Fault TokenStream := do
  let s ← s.noteKey
  if maxDepth ≤ s.outer.length then throw (s.fault s.cursor.mark .tooDeep)
  return { s.take kind 1 with outer := s.pending :: s.outer, pending := none, keyAllowed := true }

/-- Reads a closing bracket. -/
def readClosing (s : TokenStream) (kind : Token.Kind) : Except Fault TokenStream := do
  let s ← s.dropKey
  let s := match s.outer with
    | k :: ks => { s with pending := k, outer := ks }
    | [] => s
  return { s.take kind 1 with keyAllowed := false }

/-- Reads a comma. -/
def readComma (s : TokenStream) : Except Fault TokenStream := do
  return { (← s.dropKey).take .comma 1 with keyAllowed := true }

/-- Reads a dash. -/
def readDash (s : TokenStream) : Except Fault TokenStream := do
  let here := s.cursor.mark
  if !s.inBrackets && !s.keyAllowed then throw (s.fault here .strayEntry)
  let s ← (← s.openBlock s.count .seqStart here).dropKey
  return { s.take .dash 1 with keyAllowed := true }

/-- Reads a question mark. -/
def readKey (s : TokenStream) : Except Fault TokenStream := do
  let here := s.cursor.mark
  if !s.inBrackets && !s.keyAllowed then throw (s.fault here .strayKey)
  let s ← (← s.openBlock s.count .mapStart here).dropKey
  return { s.take .key 1 with keyAllowed := !s.inBrackets }

/-- Reads a colon. Behind a key without question mark the token for the key is put in. -/
def readColon (s : TokenStream) : Except Fault TokenStream := do
  match ← s.keyAt? with
  | some k =>
    let s ← (s.insert k.before .key k.mark).openBlock k.before .mapStart k.mark
    return { s.take .value 1 with pending := none, keyAllowed := false }
  | none =>
    let here := s.cursor.mark
    if !s.inBrackets && !s.keyAllowed then throw (s.fault here .strayValue)
    let s ← s.openBlock s.count .mapStart here
    return { s.take .value 1 with pending := none, keyAllowed := !s.inBrackets }

/-- Reads an anchor or alias. -/
def readAnchor (s : TokenStream) (kind : String → Token.Kind) : Except Fault TokenStream := do
  let s ← s.noteKey
  let (name, behind) ← Property.readAnchor s.cursor
  return { s.push (kind name) s.cursor.mark with cursor := behind, keyAllowed := false }

/-- Reads a tag. -/
def readTag (s : TokenStream) : Except Fault TokenStream := do
  let s ← s.noteKey
  let (kind, behind) ← Property.readTag s.cursor
  return { s.push kind s.cursor.mark with cursor := behind, keyAllowed := false }

/-- Reads a block scalar. -/
def readBlock (s : TokenStream) (literal : Bool) : Except Fault TokenStream := do
  let s ← s.dropKey
  let (text, behind) ← Block.read literal s.innerIndent s.cursor
  return { s.push (.scalar text false) s.cursor.mark with cursor := behind, keyAllowed := true }

/-- Reads a scalar in quotes. -/
def readQuoted (s : TokenStream) (quote : Char) : Except Fault TokenStream := do
  let s ← s.noteKey
  let (text, behind) ← Quoted.read quote s.cursor
  return { s.push (.scalar text false) s.cursor.mark with cursor := behind, keyAllowed := false }

/-- Reads a scalar without quotes. -/
def readPlain (s : TokenStream) : Except Fault TokenStream := do
  let s ← s.noteKey
  let r ← Plain.read s.inBrackets s.innerIndent s.cursor
  return { s.push (.scalar r.text true) s.cursor.mark with cursor := r.behind, keyAllowed := r.endsLine }

/-- Passes over blanks, breaks and comments from a place, given whether a key may start there and
    whether it is inside a comment. A tab may not stand where a key may start, unless a comment goes
    on below another one. -/
def skipSpaceFrom (inBrackets : Bool) :
    (keyAllowed inComment : Bool) → Mark → List Char → Bool × Cursor
  | keyAllowed, _, here, [] => (keyAllowed, ⟨here, []⟩)
  | keyAllowed, inComment, here, c :: cs =>
    if isBreak c then
      let below := inComment && ((cs.find? fun d => !isBlank d && !isBreak d) == some '#')
      skipSpaceFrom inBrackets (keyAllowed || !inBrackets) below (here.after c) cs
    else if inComment || c == ' ' || (c == '\t' && (inBrackets || !keyAllowed)) ||
        (c == byteOrderMark && here.column == 0) then
      skipSpaceFrom inBrackets keyAllowed inComment (here.after c) cs
    else if c == '#' then skipSpaceFrom inBrackets keyAllowed true (here.after c) cs
    else (keyAllowed, ⟨here, c :: cs⟩)

/-- Passes over blanks, breaks and comments, and ends what is indented deeper than the place behind
    them. -/
def skipSpace (s : TokenStream) : TokenStream :=
  let before := s.cursor.mark
  let (keyAllowed, behind) := skipSpaceFrom s.inBrackets s.keyAllowed false before s.cursor.rest
  { s with cursor := behind, keyAllowed := keyAllowed }.closeBlocks (behind.mark.column < ·) before

/-- Whether a scalar without quotes may start with a character, given what is behind it. -/
def startsPlain (inBrackets : Bool) (c : Char) (cs : List Char) : Bool :=
  if c == '-' then !(cs.head?.map isBlank).getD false
  else if c == '?' || c == ':' then !inBrackets && !atSpace cs
  else !isBlank c && !isBracketMark c && !"#&*!|>'\"%@`".toList.contains c

/-- Reads the token that starts with `c`, which is neither a directive nor the mark of a document. -/
def readContent (s : TokenStream) (c : Char) (cs : List Char) : Except Fault TokenStream :=
  if c == '[' then s.readOpening .openBracket
  else if c == '\x7b' then s.readOpening .openBrace
  else if c == ']' then s.readClosing .closeBracket
  else if c == '\x7d' then s.readClosing .closeBrace
  else if c == ',' then s.readComma
  else if c == '-' && atSpace cs then s.readDash
  else if c == '?' && (s.inBrackets || atSpace cs) then s.readKey
  else if c == ':' && (s.inBrackets || atSpace cs) then s.readColon
  else if c == '*' then s.readAnchor .alias_
  else if c == '&' then s.readAnchor .anchor
  else if c == '!' then s.readTag
  else if c == '|' && !s.inBrackets then s.readBlock true
  else if c == '>' && !s.inBrackets then s.readBlock false
  else if c == '\'' || c == '"' then s.readQuoted c
  else if startsPlain s.inBrackets c cs then s.readPlain
  else .error (s.fault s.cursor.mark .strayCharacter)

/-- Passes over a comment on the line of the latest token, unless that is a dash or a scalar that goes
    on up to another line. -/
def skipRemark (s : TokenStream) : TokenStream :=
  match s.queue.getLast? with
  | some ⟨.dash, _⟩ => s
  | some ⟨.scalar .., _⟩ => if s.keyAllowed then s else { s with cursor := s.cursor.skipComment }
  | _ => { s with cursor := s.cursor.skipComment }

/-- Reads the next token, which starts at the place. -/
def readToken (s : TokenStream) : Except Fault TokenStream :=
  match s.cursor.rest with
  | [] => s.readEnd
  | c :: cs =>
    let startsLine := s.cursor.mark.column == 0
    if startsLine && c == '%' then s.readDirective
    else if startsLine && atDocumentMark (c :: cs) then
      s.readDocumentMark (if c == '-' then .documentStart else .documentEnd)
    else return (← s.readContent c cs).skipRemark

/-- The number of characters that tell what starts at a place. -/
def sight : Nat := 4

/-- Reads the next token. At the end of the text that is the token of the end, over and over. What is
    at fault behind the text counts when reading comes up to it. -/
def readNext (s : TokenStream) : Except Fault TokenStream :=
  let s := s.skipSpace
  match s.broken with
  | none => s.readToken
  | some f =>
    if (s.cursor.rest.take sight).length < sight then .error f
    else
      match s.readToken with
      | .ok next => if next.cursor.rest.isEmpty then .error f else .ok next
      | .error e => .error (if e.problem == .endInQuotes then f else e)

/-- What may turn out to be a key and starts with the token to be handed out next. -/
def headKey? (s : TokenStream) : Option PendingKey :=
  (s.pending :: s.outer).findSome? (·.filter (·.before == s.passed))

/-- The number of tokens read before the first of them is handed out. -/
def reach : Nat := 3

/-- Reads tokens until the next one can be handed out. The first argument bounds their number. -/
def settleFrom : Nat → TokenStream → Except Fault TokenStream
  | 0, s => .ok s
  | fuel + 1, s => do
    if s.queue.length < reach then settleFrom fuel (← s.readNext)
    else
      match s.headKey? with
      | none => return s
      | some k => if ← s.isPossible k then settleFrom fuel (← s.readNext) else return s

/-- Reads tokens until the next one can be handed out. Every token but that of the end takes at least
    one character. -/
def settle (s : TokenStream) : Except Fault TokenStream :=
  settleFrom (s.size + reach + 1) s

/-- The token to be handed out next. -/
def head (s : TokenStream) : Token := s.queue.headD ⟨.streamEnd, s.cursor.mark⟩

/-- Hands the next token out. -/
def pass (s : TokenStream) : TokenStream := { s with passed := s.passed + 1, queue := s.queue.tail }

end TokenStream

end Lantern.Yaml
