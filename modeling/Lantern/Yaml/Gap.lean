import Lantern.Yaml.Cursor

/-!
# Gaps between words

A scalar may go on over several lines. Blanks between two words on one line are kept. A gap with line
breaks loses its blanks; a single break becomes a space, and of several breaks the first is dropped.
Texts that grow are held with their latest character first.
-/

namespace Lantern.Yaml

/-- What stands between two words of a scalar, latest character first. -/
inductive Gap where
  /-- Blanks only, or nothing. -/
  | blanks (cs : List Char)
  /-- A first break, unless it was escaped, and the breaks behind it. -/
  | breaks (first : Option Char) (more : List Char)
  deriving Repr, DecidableEq

namespace Gap

/-- No gap. -/
def none : Gap := blanks []

/-- Whether there is a gap at all. -/
def isOpen : Gap → Bool
  | blanks cs => !cs.isEmpty
  | breaks .. => true

/-- Whether the gap reaches into another line. -/
def crossesLine : Gap → Bool
  | blanks _ => false
  | breaks .. => true

/-- The gap with a further blank. -/
def addBlank (c : Char) : Gap → Gap
  | blanks cs => blanks (c :: cs)
  | breaks first more => breaks first more

/-- The gap with a further line break. -/
def addBreak (c : Char) : Gap → Gap
  | blanks _ => breaks (some c) []
  | breaks first more => breaks first (c :: more)

/-- Puts what the gap stands for behind a text. -/
def onto (text : List Char) : Gap → List Char
  | blanks cs => cs ++ text
  | breaks first more =>
    if first == some '\n' then (if more.isEmpty then ' ' :: text else more ++ text)
    else more ++ first.toList ++ text

end Gap

end Lantern.Yaml
