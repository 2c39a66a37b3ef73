import Lantern.Yaml.Gap

/-!
# Scalars without quotes

A scalar without quotes goes on up to a colon with a space behind it, a comment, the mark of a
document, a line that is indented too little or, inside brackets, a bracket or comma.
-/

namespace Lantern.Yaml.Plain

/-- A scalar without quotes that has been read. -/
structure Result where
  /-- Its text. -/
  text : String
  /-- Whether it was followed by the end of its line. -/
  endsLine : Bool
  /-- What is behind it. -/
  behind : Cursor
  deriving Repr, DecidableEq

/-- Whether a scalar ends at a character inside or at the start of a word. -/
def endsAt (inBrackets : Bool) : List Char → Bool
  | [] => true
  | c :: cs => (c == ':' && atSpace cs) || (inBrackets && (isBracketMark c || c == '?'))

/-- Whether a scalar ends at a place behind a gap. -/
def endsBehindGap (inBrackets : Bool) (indent : Nat) (here : Mark) (cs : List Char) : Bool :=
  cs.head? == some '#' || (here.column == 0 && atDocumentMark cs) ||
    (!inBrackets && here.column < indent)

/-- Reads a scalar that starts at `start`, given its text so far, the gap behind that and the
    place. -/
def readFrom (inBrackets : Bool) (indent : Nat) (start : Mark) :
    List Char → Gap → Mark → List Char → Except Fault Result
  | text, gap, here, [] => .ok ⟨String.ofList text.reverse, gap.crossesLine, ⟨here, []⟩⟩
  | text, gap, here, c :: cs =>
    if isBlank c then
      if gap.crossesLine && here.column < indent && c == '\t' then
        .error (.reading start here .tabInPlain)
      else readFrom inBrackets indent start text (gap.addBlank c) (here.after c) cs
    else if isBreak c then
      readFrom inBrackets indent start text (gap.addBreak c) (here.after c) cs
    else if (gap.isOpen && endsBehindGap inBrackets indent here (c :: cs)) ||
        endsAt inBrackets (c :: cs) then
      .ok ⟨String.ofList text.reverse, gap.crossesLine, ⟨here, c :: cs⟩⟩
    else readFrom inBrackets indent start (c :: gap.onto text) .none (here.after c) cs

/-- Reads a scalar whose further lines are indented by at least `indent`. -/
def read (inBrackets : Bool) (indent : Nat) (c : Cursor) : Except Fault Result :=
  readFrom inBrackets indent c.mark [] .none c.mark c.rest

end Lantern.Yaml.Plain
