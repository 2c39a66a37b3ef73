/-!
# Places in source text

A span is a stretch of one line-oriented source file: which file, where it starts, and how many
characters it covers. Lines and columns count from one.
-/

namespace Lantern

/-- A stretch of a source file. -/
structure Span where
  /-- Index of the file among the sources of a compilation. -/
  file : Int
  /-- Line of the first character. -/
  line : Int
  /-- Column of the first character, counted in characters. -/
  column : Int
  /-- Number of characters covered. -/
  length : Int
  deriving Repr, DecidableEq, BEq, Inhabited

/-- The span of something that was not read from a file. -/
def Span.nowhere : Span := ⟨0, 0, 0, 0⟩

/-- A place between two characters of a source file. -/
structure Mark where
  /-- Number of characters before it. -/
  offset : Nat
  /-- Line of the next character. -/
  line : Nat
  /-- Column of the next character. -/
  column : Nat
  deriving Repr, DecidableEq, BEq, Inhabited

namespace Mark

/-- The place before the first character. -/
def start : Mark := ⟨0, 1, 1⟩

/-- The place after passing the character `c`. -/
def next (m : Mark) (c : Char) : Mark :=
  if c == '\n' then ⟨m.offset + 1, m.line + 1, 1⟩ else ⟨m.offset + 1, m.line, m.column + 1⟩

/-- The place after passing all of `cs`. -/
def past (m : Mark) (cs : List Char) : Mark := cs.foldl next m

/-- The span from `m` up to `stop` in the given file. -/
def upTo (m : Mark) (file : Nat) (stop : Mark) : Span :=
  ⟨file, m.line, m.column, stop.offset - m.offset⟩

end Mark

end Lantern
