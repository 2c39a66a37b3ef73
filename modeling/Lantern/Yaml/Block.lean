import Lantern.Yaml.Cursor

/-!
# Block scalars

A block scalar is a number of lines below its indicator that are indented alike. A literal block keeps
its line breaks; a folded one joins lines by spaces, except next to lines that start with a blank. The
breaks at the end are cut to one, dropped or kept. The indentation is that of the first line that is
not empty, unless the indicator gives it.
-/

namespace Lantern.Yaml.Block

/-- What becomes of the line breaks at the end. -/
inductive Ending where
  /-- One is kept. -/
  | clip
  /-- None is kept. -/
  | strip
  /-- All are kept. -/
  | keep
  deriving Repr, DecidableEq

/-- The ending a character asks for. -/
def ending? (c : Char) : Option Ending :=
  if c == '+' then some .keep else if c == '-' then some .strip else none

/-- What stands behind the indicator of a block. -/
structure Header where
  /-- The ending. -/
  ending : Ending := .clip
  /-- How much deeper than its surroundings the block is indented; zero leaves it open. -/
  deeper : Nat := 0
  deriving Repr, DecidableEq

/-- Reads a digit for the indentation into a header. -/
def readDepth (start : Mark) (h : Header) (c : Cursor) : Except Fault (Header × Cursor) :=
  match c.rest with
  | d :: _ =>
    if d == '0' then .error (.reading start c.mark .zeroIndentation)
    else if d.isDigit then .ok ({ h with deeper := d.toNat - '0'.toNat }, c.skip)
    else .ok (h, c)
  | [] => .ok (h, c)

/-- Reads a sign for the ending into a header. -/
def readEnding (h : Header) (c : Cursor) : Header × Cursor :=
  match c.rest.head?.bind ending? with
  | some e => ({ h with ending := e }, c.skip)
  | none => (h, c)

/-- Reads a header: a sign and a digit in any order, each optional. -/
def readHeader (start : Mark) (c : Cursor) : Except Fault (Header × Cursor) := do
  if (c.rest.head?.bind ending?).isSome then
    let (h, c) := readEnding {} c
    readDepth start h c
  else
    let (h, c') ← readDepth start {} c
    return if h.deeper == 0 then (h, c') else readEnding h c'

/-- Passes over indentation and empty lines, given the deepest column reached and the breaks so far,
    latest first. An indentation of zero is still open. -/
def skipIndentFrom (start : Mark) (indent : Nat) :
    Nat → List Char → Mark → List Char → Except Fault (Nat × List Char × Cursor)
  | deepest, breaks, here, [] => .ok (max deepest here.column, breaks, ⟨here, []⟩)
  | deepest, breaks, here, c :: cs =>
    let inIndent := indent == 0 || here.column < indent
    if inIndent && c == ' ' then skipIndentFrom start indent deepest breaks (here.after c) cs
    else if inIndent && c == '\t' then .error (.reading start here .tabInBlock)
    else if isBreak c then
      skipIndentFrom start indent (max deepest here.column) (c :: breaks) (here.after c) cs
    else .ok (max deepest here.column, breaks, ⟨here, c :: cs⟩)

/-- A block as far as it has been read; texts have their latest character first. -/
structure Progress where
  /-- The text. -/
  text : List Char := []
  /-- The break at the end of the latest line. -/
  break_ : Option Char := none
  /-- The breaks of the empty lines behind it. -/
  more : List Char := []
  /-- Whether the latest line starts with a blank. -/
  blankStart : Bool := false
  deriving Repr, DecidableEq

/-- Adds a line to a block. -/
def Progress.addLine (literal : Bool) (p : Progress) (line : List Char) : List Char :=
  let startsBlank := (line.head?.map isBlank).getD false
  let folds := !literal && !p.blankStart && !startsBlank && p.break_ == some '\n'
  let text :=
    if folds then (if p.more.isEmpty then ' ' :: p.text else p.text)
    else p.break_.toList ++ p.text
  line.reverse ++ p.more ++ text

/-- Reads the lines of a block. The first argument bounds their number. -/
def readLines (literal : Bool) (start : Mark) (indent : Nat) :
    Nat → Progress → Cursor → Except Fault (Progress × Cursor)
  | 0, p, c => .ok (p, c)
  | fuel + 1, p, c =>
    if c.rest.isEmpty || c.mark.column != indent then .ok (p, c)
    else do
      let (line, behind) := c.span fun ch => !isBreak ch
      let next := behind.skip
      let (_, more, next) ← skipIndentFrom start indent 0 [] next.mark next.rest
      readLines literal start indent fuel
        { text := p.addLine literal line, break_ := behind.rest.head?, more := more
          blankStart := (line.head?.map isBlank).getD false } next

/-- The text of a block that has been read. -/
def Progress.finish (p : Progress) (e : Ending) : String :=
  let text := match e with
    | .strip => p.text
    | .clip => p.break_.toList ++ p.text
    | .keep => p.more ++ p.break_.toList ++ p.text
  String.ofList text.reverse

/-- Reads a block whose surroundings need an indentation of `least`; the cursor is at the
    indicator. -/
def read (literal : Bool) (least : Nat) (c : Cursor) : Except Fault (String × Cursor) := do
  let start := c.mark
  let (h, c) ← readHeader start c.skip
  let c := (c.skipWhile isBlank).skipComment
  if !atLineEnd c.rest then throw (.reading start c.mark .missingLineEnd)
  let c := c.skip
  let given := if h.deeper == 0 then 0 else max least 1 - 1 + h.deeper
  let (deepest, more, c) ← skipIndentFrom start given 0 [] c.mark c.rest
  let indent := if given == 0 then max deepest (max least 1) else given
  let (p, c) ← readLines literal start indent (c.rest.length + 1) { more := more } c
  return (p.finish h.ending, c)

end Lantern.Yaml.Block
