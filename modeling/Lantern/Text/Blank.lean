/-!
# White space

The characters that separate words in free text, and the splitting and trimming built on them. The
set is larger than the scanner's own blanks: it holds every character with the white-space property.
-/

namespace Lantern.Text

/-- A character with the white-space property. -/
def isSpace (c : Char) : Bool :=
  let n := c.toNat
  (0x09 ≤ n && n ≤ 0x0D) || n == 0x20 || n == 0x85 || n == 0xA0 || n == 0x1680 ||
    (0x2000 ≤ n && n ≤ 0x200A) || n == 0x2028 || n == 0x2029 || n == 0x202F || n == 0x205F ||
    n == 0x3000

/-- `cs` without the run of characters satisfying `p` at its end. -/
def dropWhileEnd (p : Char → Bool) (cs : List Char) : List Char :=
  (cs.reverse.dropWhile p).reverse

/-- `s` without the white space at both ends. -/
def trim (s : String) : String :=
  String.ofList (dropWhileEnd isSpace (s.toList.dropWhile isSpace))

/-- `s` without the characters satisfying `p` at its end. -/
def trimEnd (p : Char → Bool) (s : String) : String :=
  String.ofList (dropWhileEnd p s.toList)

/-- The words of `cs`, given the letters of the word being read, latest first. -/
def wordsFrom : List Char → List Char → List String
  | word, [] => if word.isEmpty then [] else [String.ofList word.reverse]
  | word, c :: cs =>
    if isSpace c then
      if word.isEmpty then wordsFrom [] cs else String.ofList word.reverse :: wordsFrom [] cs
    else wordsFrom (c :: word) cs

/-- The maximal runs of `s` without white space, in order. -/
def words (s : String) : List String := wordsFrom [] s.toList

/-- The pieces of `cs` between the characters satisfying `p`, given the piece being read, latest
    first. There is always one more piece than there are separators. -/
def piecesFrom (p : Char → Bool) : List Char → List Char → List (List Char)
  | piece, [] => [piece.reverse]
  | piece, c :: cs =>
    if p c then piece.reverse :: piecesFrom p [] cs else piecesFrom p (c :: piece) cs

/-- The lines of `s`: the pieces between line feeds. A final line feed starts one more, empty
    line. -/
def lines (s : String) : List String :=
  (piecesFrom (· == '\n') [] s.toList).map String.ofList

/-- `s` with `ending` removed, if it ends so. -/
def dropEnding (ending s : String) : String :=
  if ending.toList.isSuffixOf s.toList then
    String.ofList (s.toList.take (s.toList.length - ending.toList.length))
  else s

/-- What follows `start` in `s`, if `s` starts so. -/
def dropStart? (start s : String) : Option String :=
  if start.toList.isPrefixOf s.toList then some (String.ofList (s.toList.drop start.toList.length))
  else none

/-- Whether `s` starts with `start`. -/
def startsWith (start s : String) : Bool := start.toList.isPrefixOf s.toList

/-- `n` copies of `c`. -/
def repeated (n : Nat) (c : Char) : String := String.ofList (List.replicate n c)

end Lantern.Text
