/-!
# UTF-8

The bytes of a text, and the text of bytes that need not be well formed: every byte that starts no
well-formed character stands for one replacement character.
-/

namespace Lantern.Text

/-- The bytes of `s`. -/
def utf8Bytes (s : String) : List UInt8 := s.toUTF8.toList

/-- The length of `s` in bytes. -/
def byteLength (s : String) : Nat := s.utf8ByteSize

/-- The character that stands for a byte no character starts with. -/
def replacement : Char := Char.ofNat 0xFFFD

/-- The payload of a continuation byte within the closed range `lo` to `hi`. -/
def continuation? (lo hi b : UInt8) : Option Nat :=
  if lo ≤ b && b ≤ hi then some (b.toNat % 0x40) else none

/-- The least and greatest second byte after the leading byte `b` of a longer character. -/
def secondByteRange (b : UInt8) : UInt8 × UInt8 :=
  if b == 0xE0 then (0xA0, 0xBF)
  else if b == 0xED then (0x80, 0x9F)
  else if b == 0xF0 then (0x90, 0xBF)
  else if b == 0xF4 then (0x80, 0x8F)
  else (0x80, 0xBF)

/-- The first character of a byte sequence and the number of bytes it takes, if one is well
    formed. -/
def firstChar? : List UInt8 → Option (Char × Nat)
  | [] => none
  | a :: rest =>
    if a < 0x80 then some (Char.ofNat a.toNat, 1)
    else
      let (lo, hi) := secondByteRange a
      match rest with
      | [] => none
      | b :: rest =>
        match continuation? lo hi b with
        | none => none
        | some v =>
          if 0xC2 ≤ a && a ≤ 0xDF then some (Char.ofNat ((a.toNat - 0xC0) * 0x40 + v), 2)
          else
            match rest with
            | [] => none
            | c :: rest =>
              match continuation? 0x80 0xBF c with
              | none => none
              | some w =>
                if 0xE0 ≤ a && a ≤ 0xEF then
                  some (Char.ofNat (((a.toNat - 0xE0) * 0x40 + v) * 0x40 + w), 3)
                else
                  match rest with
                  | [] => none
                  | d :: _ =>
                    match continuation? 0x80 0xBF d with
                    | none => none
                    | some x =>
                      if 0xF0 ≤ a && a ≤ 0xF4 then
                        some (Char.ofNat ((((a.toNat - 0xF0) * 0x40 + v) * 0x40 + w) * 0x40 + x), 4)
                      else none

/-- The characters of a byte sequence. The first argument counts the bytes still to be passed over
    because the character before them has been read. -/
def decodeFrom : Nat → List UInt8 → List Char
  | _, [] => []
  | skip + 1, _ :: rest => decodeFrom skip rest
  | 0, b :: rest =>
    match firstChar? (b :: rest) with
    | some (c, n) => c :: decodeFrom (n - 1) rest
    | none => replacement :: decodeFrom 0 rest

/-- The text of a byte sequence. -/
def decodeUtf8 (bytes : List UInt8) : String := String.ofList (decodeFrom 0 bytes)

end Lantern.Text
