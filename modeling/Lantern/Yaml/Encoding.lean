import Lantern.Yaml.Fault

/-!
# The characters of a document

A document is a sequence of bytes. Two bytes at its start may say that it is in UTF-16, and which byte
of a unit is the low one; otherwise it is in UTF-8. The first place where the bytes are no character,
or a character that may not stand in a document, is a problem.

Bytes are taken in pieces, and a problem shows as soon as the piece it is in is needed: what stands in
the pieces before it can be read, and the rest cannot. That the last character is incomplete shows
only when all that is before it has been read.

| first bytes | encoding |
|---|---|
| `FF FE` | UTF-16, low byte first |
| `FE FF` | UTF-16, high byte first |
| `EF BB BF` | UTF-8 |
| others | UTF-8; they belong to the text |
-/

namespace Lantern.Yaml

/-- A character that may stand in a document. -/
def isAllowed (c : Char) : Bool :=
  let n := c.toNat
  n == 0x09 || n == 0x0A || n == 0x0D || (0x20 ≤ n && n ≤ 0x7E) || n == 0x85 ||
    (0xA0 ≤ n && n ≤ 0xFFFD) || 0x10000 ≤ n

/-- How many bytes the character takes whose first byte is `b`; zero if there is none. -/
def octetCount (b : Nat) : Nat :=
  if b < 0x80 then 1
  else if b < 0xC0 then 0
  else if b < 0xE0 then 2
  else if b < 0xF0 then 3
  else if b < 0xF8 then 4
  else 0

/-- How a document is written. -/
inductive Encoding where
  /-- Characters of one to four bytes. -/
  | octets
  /-- Units of two bytes, the low one first. -/
  | lowFirst
  /-- Units of two bytes, the high one first. -/
  | highFirst
  deriving Repr, DecidableEq

namespace Encoding

/-- The encoding of a document, and its bytes without the mark that tells it. -/
def detect : List UInt8 → Encoding × List UInt8
  | 0xFF :: 0xFE :: bytes => (.lowFirst, bytes)
  | 0xFE :: 0xFF :: bytes => (.highFirst, bytes)
  | 0xEF :: 0xBB :: 0xBF :: bytes => (.octets, bytes)
  | bytes => (.octets, bytes)

/-- Whether a byte goes on with a character. -/
def isTrailing (b : UInt8) : Bool := 0x80 ≤ b && b ≤ 0xBF

/-- The bits of a character that its first byte holds, of `width` bytes in all. -/
def leadingBits (width b : Nat) : Nat :=
  match width with
  | 1 => b
  | 2 => b % 0x20
  | 3 => b % 0x10
  | _ => b % 0x08

/-- The least character that needs `width` bytes. -/
def leastOf : Nat → Nat
  | 2 => 0x80
  | 3 => 0x800
  | 4 => 0x10000
  | _ => 0

/-- The number of the character that starts with `first`, and how many bytes behind that it takes. -/
def octetsCode (first : UInt8) (rest : List UInt8) : Except Problem (Nat × Nat) :=
  let width := octetCount first.toNat
  let others := rest.take (width - 1)
  let code := others.foldl (fun n b => n * 0x40 + b.toNat % 0x40) (leadingBits width first.toNat)
  if width == 0 then .error .leadingOctet
  else if others.length + 1 < width then .error .incompleteOctets
  else if !others.all isTrailing then .error .trailingOctet
  else if code < leastOf width then .error .overlongOctets
  else if (0xD800 ≤ code && code ≤ 0xDFFF) || 0x10FFFF < code then .error .noCharacter
  else .ok (code, width - 1)

/-- Whether a unit is the first of a pair. -/
def isHighSurrogate (u : Nat) : Bool := 0xD800 ≤ u && u < 0xDC00

/-- Whether a unit is the second of a pair. -/
def isLowSurrogate (u : Nat) : Bool := 0xDC00 ≤ u && u < 0xE000

/-- The number of the character that starts with `first`, and how many bytes behind that it takes.
    A unit is made of two bytes by `unit`. -/
def unitsCode (unit : UInt8 → UInt8 → Nat) (first : UInt8) :
    List UInt8 → Except Problem (Nat × Nat)
  | [] => .error .incompleteUnit
  | b :: rest =>
    let u := unit first b
    if isLowSurrogate u then .error .strayLowSurrogate
    else if isHighSurrogate u then
      match rest with
      | c :: d :: _ =>
        let v := unit c d
        if isLowSurrogate v then .ok (0x10000 + u % 0x400 * 0x400 + v % 0x400, 3)
        else .error .missingLowSurrogate
      | _ => .error .incompletePair
    else .ok (u, 1)

/-- The number of the character that starts with `first`, and how many bytes behind that it takes. -/
def code (e : Encoding) (first : UInt8) (rest : List UInt8) : Except Problem (Nat × Nat) :=
  match e with
  | octets => octetsCode first rest
  | lowFirst => unitsCode (fun low high => high.toNat * 0x100 + low.toNat) first rest
  | highFirst => unitsCode (fun high low => high.toNat * 0x100 + low.toNat) first rest

/-- How many bytes a character takes that starts with `first`; a byte that starts none is one. -/
def width (e : Encoding) (first : UInt8) (rest : List UInt8) : Nat :=
  match e with
  | octets => max 1 (octetCount first.toNat)
  | lowFirst => if isHighSurrogate (0x100 * (rest.headD 0).toNat) then 4 else 2
  | highFirst => if isHighSurrogate (0x100 * first.toNat) then 4 else 2

/-- The size of a piece. -/
def pieceSize : Nat := 512

end Encoding

/-- A document as far as it can be read. -/
structure Script where
  /-- The characters. -/
  chars : List Char
  /-- What is at fault behind them. -/
  problem : Option Problem := none
  deriving Repr, DecidableEq

namespace Script

/-- Characters that have been read; both lists have the latest first. -/
structure Pieces where
  /-- The characters of whole pieces. -/
  whole : List Char := []
  /-- The characters of the piece that is being read. -/
  latest : List Char := []
  /-- Where that piece ends. -/
  stop : Nat := Encoding.pieceSize
  deriving Repr, DecidableEq

/-- All characters that have been read, latest first. -/
def Pieces.all (p : Pieces) : List Char := p.latest ++ p.whole

/-- Makes sure that `width` bytes from `offset` on are in one piece: if they are not, a new piece starts
    with them. -/
def Pieces.reaching (p : Pieces) (offset width : Nat) : Pieces :=
  if p.stop < offset + width then ⟨p.all, [], offset + Encoding.pieceSize⟩ else p

/-- Reads bytes from `offset` on, given what has been read before and how many of them belong to a
    character that has been read. -/
def readFrom (e : Encoding) : Pieces → (offset skip : Nat) → List UInt8 → Script
  | p, _, _, [] => ⟨p.all.reverse, none⟩
  | p, offset, skip + 1, _ :: rest => readFrom e p (offset + 1) skip rest
  | p, offset, 0, b :: rest =>
    let width := e.width b rest
    let p := p.reaching offset width
    match e.code b rest with
    | .error problem =>
      let isCut := (rest.take (width - 1)).length + 1 < width
      ⟨(if isCut then p.all else p.whole).reverse, some problem⟩
    | .ok (n, skip) =>
      let c := Char.ofNat n
      if isAllowed c then readFrom e { p with latest := c :: p.latest } (offset + 1) skip rest
      else ⟨p.whole.reverse, some .controlCharacter⟩

/-- The document in bytes. -/
def ofBytes (bytes : List UInt8) : Script :=
  let (encoding, text) := Encoding.detect bytes
  readFrom encoding {} (bytes.length - text.length) 0 text

end Script

end Lantern.Yaml
