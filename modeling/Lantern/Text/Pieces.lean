import Lantern.Text.Blank

/-!
# Pieces of text

One text inside another: splitting at it, replacing it, testing for it, and cutting at its first
occurrence. Occurrences are taken from the left and do not overlap.
-/

namespace Lantern.Text

/-- The pieces of a text between occurrences of `sep`. The number counts the characters of an
    occurrence still to be passed over; the piece being read has its latest character first. -/
def splitFrom (sep : List Char) : Nat → List Char → List Char → List (List Char)
  | _, piece, [] => [piece.reverse]
  | skip + 1, piece, _ :: cs => splitFrom sep skip piece cs
  | 0, piece, c :: cs =>
    if sep.isPrefixOf (c :: cs) then piece.reverse :: splitFrom sep (sep.length - 1) [] cs
    else splitFrom sep 0 (c :: piece) cs

/-- The pieces of `s` between occurrences of `sep`; its characters if `sep` is empty. -/
def split (sep s : String) : List String :=
  if sep.isEmpty then s.toList.map String.singleton
  else (splitFrom sep.toList 0 [] s.toList).map String.ofList

/-- A text with `new` for each occurrence of `old`. The number counts the characters of an occurrence
    still to be passed over. -/
def replaceFrom (old new : List Char) : Nat → List Char → List Char
  | _, [] => []
  | skip + 1, _ :: cs => replaceFrom old new skip cs
  | 0, c :: cs =>
    if old.isPrefixOf (c :: cs) then new ++ replaceFrom old new (old.length - 1) cs
    else c :: replaceFrom old new 0 cs

/-- `s` with `new` for each occurrence of the non-empty text `old`. -/
def replaceAll (old new s : String) : String :=
  String.ofList (replaceFrom old.toList new.toList 0 s.toList)

/-- Whether `sub` occurs in a text. -/
def occursIn (sub : List Char) : List Char → Bool
  | [] => sub.isEmpty
  | c :: cs => sub.isPrefixOf (c :: cs) || occursIn sub cs

/-- Whether `sub` occurs in `s`. -/
def contains (sub s : String) : Bool := occursIn sub.toList s.toList

/-- What stands before and after the first `c` in `s`; nothing stands after if there is none. -/
def cutAt (c : Char) (s : String) : String × Option String :=
  let before := s.toList.takeWhile (· != c)
  match s.toList.dropWhile (· != c) with
  | [] => (String.ofList before, none)
  | _ :: after => (String.ofList before, some (String.ofList after))

/-- `s` with spaces behind it up to `width` characters. -/
def padEnd (width : Nat) (s : String) : String := s ++ repeated (width - s.length) ' '

/-- `s` with spaces before it up to `width` characters. -/
def padStart (width : Nat) (s : String) : String := repeated (width - s.length) ' ' ++ s

end Lantern.Text
