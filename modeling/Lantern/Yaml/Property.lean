import Lantern.Text.Utf8
import Lantern.Yaml.Quoted
import Lantern.Yaml.Token

/-!
# Anchors, tags and directives

The parts of a document that say something about nodes: names that nodes are given and called by,
tags that claim a type, and directives that say what the handles of tags stand for.
-/

namespace Lantern.Yaml.Property

/-- Reads the name behind an ampersand or asterisk. -/
def readAnchor (c : Cursor) : Except Fault (String × Cursor) :=
  let (name, behind) := c.skip.span isNameChar
  let ends := atSpace behind.rest ||
    (behind.rest.head?.map "?:,]\x7d%@`".toList.contains).getD false
  if name.isEmpty || !ends then .error (.reading c.mark behind.mark .missingAnchorName)
  else .ok (String.ofList name, behind)

/-- A character of tags that stands for itself. -/
def isTagChar (c : Char) : Bool := isNameChar c || ";/?:@&=+$,.!~*'()[]".toList.contains c

/-- Reads the bytes of a tag, given how many more an escaped character needs. -/
def readTagBytesFrom (start : Mark) :
    Nat → List UInt8 → Mark → List Char → Except Fault (List UInt8 × Cursor)
  | need, done, here, '%' :: a :: b :: cs =>
    match Quoted.hexValue? a, Quoted.hexValue? b with
    | some x, some y =>
      let octet := x * 16 + y
      let behind := ((here.after '%').after a).after b
      if need == 0 then
        if octetCount octet == 0 then .error (.reading start here .badLeadingOctet)
        else readTagBytesFrom start (octetCount octet - 1) (octet.toUInt8 :: done) behind cs
      else if octet / 0x40 != 2 then .error (.reading start here .badTrailingOctet)
      else readTagBytesFrom start (need - 1) (octet.toUInt8 :: done) behind cs
    | _, _ => .error (.reading start here .missingOctet)
  | need, done, here, c :: cs =>
    if need != 0 || c == '%' then .error (.reading start here .missingOctet)
    else if isTagChar c then
      readTagBytesFrom start 0 (c.toNat.toUInt8 :: done) (here.after c) cs
    else .ok (done.reverse, ⟨here, c :: cs⟩)
  | need, done, here, [] =>
    if need != 0 then .error (.reading start here .missingOctet)
    else .ok (done.reverse, ⟨here, []⟩)

/-- Reads the name of a tag behind what has been read of it as a handle. -/
def readTagName (start : Mark) (before : String) (c : Cursor) : Except Fault (String × Cursor) := do
  let (bytes, behind) ← readTagBytesFrom start 0 [] c.mark c.rest
  if bytes.isEmpty && before.isEmpty then throw (.reading start behind.mark .missingTagName)
  return (String.ofList (before.toList.drop 1) ++ Text.decodeUtf8 bytes, behind)

/-- Reads a handle: an exclamation mark, a name and a second mark if there is one. -/
def readHandle (start : Mark) (directive : Bool) (c : Cursor) : Except Fault (String × Cursor) :=
  match c.rest with
  | '!' :: _ =>
    let (name, behind) := c.skip.span isNameChar
    match behind.rest with
    | '!' :: _ => .ok (String.ofList ('!' :: name ++ ['!']), behind.skip)
    | _ =>
      if directive && !name.isEmpty then .error (.reading start behind.mark .missingHandle)
      else .ok (String.ofList ('!' :: name), behind)
  | _ => .error (.reading start c.mark .missingHandle)

/-- Whether a handle has its second mark. -/
def isWholeHandle (h : String) : Bool := 1 < h.length && h.toList.getLast? == some '!'

/-- Reads a tag: verbatim in angle brackets, or a handle and a name. A lone mark is a tag without
    handle. -/
def readTag (c : Cursor) : Except Fault (Token.Kind × Cursor) := do
  let start := c.mark
  let (kind, behind) ← match c.rest with
    | '!' :: '<' :: _ => do
      let (name, behind) ← readTagName start "" (c.skipMany 2)
      match behind.rest with
      | '>' :: _ => pure (Token.Kind.tag "" name, behind.skip)
      | _ => throw (.reading start behind.mark .missingTagEnd)
    | _ => do
      let (handle, behind) ← readHandle start false c
      if isWholeHandle handle then
        let (name, behind) ← readTagName start "" behind
        pure (Token.Kind.tag handle name, behind)
      else
        let (name, behind) ← readTagName start handle behind
        if name.isEmpty then pure (Token.Kind.tag "" handle, behind)
        else pure (Token.Kind.tag "!" name, behind)
  if !atSpace behind.rest then throw (.reading start behind.mark .missingBlankOrBreak)
  return (kind, behind)

/-- Reads a number of a version, of two digits at most. -/
def readVersionNumber (start : Mark) (c : Cursor) : Except Fault (Nat × Cursor) :=
  let (digits, behind) := c.span Char.isDigit
  if 2 < digits.length then .error (.reading start c.mark .longVersion)
  else if digits.isEmpty then .error (.reading start c.mark .missingVersion)
  else .ok (digits.foldl (fun n d => 10 * n + (d.toNat - '0'.toNat)) 0, behind)

/-- Reads what a version directive says. -/
def readVersion (start : Mark) (c : Cursor) : Except Fault (Token.Kind × Cursor) := do
  let (major, c) ← readVersionNumber start (c.skipWhile isBlank)
  match c.rest with
  | '.' :: _ =>
    let (minor, c) ← readVersionNumber start c.skip
    return (.version major minor, c)
  | _ => throw (.reading start c.mark .missingPoint)

/-- Reads what a directive for a handle says. -/
def readHandleMeaning (start : Mark) (c : Cursor) : Except Fault (Token.Kind × Cursor) := do
  let (name, c) ← readHandle start true (c.skipWhile isBlank)
  if !(c.rest.head?.map isBlank).getD false then throw (.reading start c.mark .missingBlank)
  let (meaning, c) ← readTagName start "" (c.skipWhile isBlank)
  if !atSpace c.rest then throw (.reading start c.mark .missingBlankOrBreak)
  return (.handle name meaning, c)

/-- Reads a directive with its line; the cursor is at the percent sign. -/
def readDirective (c : Cursor) : Except Fault (Token.Kind × Cursor) := do
  let start := c.mark
  let (name, c) := c.skip.span isNameChar
  if name.isEmpty then throw (.reading start c.mark .missingDirectiveName)
  if !atSpace c.rest then throw (.reading start c.mark .strayDirectiveName)
  let (kind, c) ←
    if name == "YAML".toList then readVersion start c
    else if name == "TAG".toList then readHandleMeaning start c
    else throw (.reading start c.mark .unknownDirective)
  let c := (c.skipWhile isBlank).skipComment
  if !atLineEnd c.rest then throw (.reading start c.mark .missingLineEnd)
  return (kind, c.skip)

end Lantern.Yaml.Property
