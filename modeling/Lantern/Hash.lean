/-!
# A 64-bit hash of bytes

Thirty-two bytes at a time are mixed into four lanes, the lanes into one word together with the
length, then the bytes that are left, and at last the word with itself.
-/

namespace Lantern.Hash

/-- The first multiplier. -/
def prime1 : UInt64 := 11400714785074694791
/-- The second multiplier. -/
def prime2 : UInt64 := 14029467366897019727
/-- The third multiplier. -/
def prime3 : UInt64 := 1609587929392839161
/-- The fourth multiplier. -/
def prime4 : UInt64 := 9650029242287828579
/-- The fifth multiplier. -/
def prime5 : UInt64 := 2870177450012600261

/-- Rotates a word to the left. -/
def rotate (x : UInt64) (n : UInt64) : UInt64 := (x <<< n) ||| (x >>> (64 - n))

/-- The number whose bytes these are, the least first. -/
def little : List UInt8 → UInt64
  | [] => 0
  | b :: bs => b.toUInt64 ||| (little bs <<< 8)

/-- Mixes a word into a lane. -/
def mix (lane word : UInt64) : UInt64 := rotate (lane + word * prime2) 31 * prime1

/-- The four lanes. -/
structure Lanes where
  /-- The first lane. -/
  a : UInt64
  /-- The second lane. -/
  b : UInt64
  /-- The third lane. -/
  c : UInt64
  /-- The fourth lane. -/
  d : UInt64
  deriving Repr, DecidableEq

namespace Lanes

/-- The lanes before anything is mixed in. -/
def start : Lanes := ⟨prime1 + prime2, prime2, 0, 0 - prime1⟩

/-- Mixes thirty-two bytes in. -/
def absorb (l : Lanes) (stripe : List UInt8) : Lanes :=
  ⟨mix l.a (little (stripe.take 8)), mix l.b (little ((stripe.drop 8).take 8)),
   mix l.c (little ((stripe.drop 16).take 8)), mix l.d (little ((stripe.drop 24).take 8))⟩

/-- The lanes as one word. -/
def merge (l : Lanes) : UInt64 :=
  let h := rotate l.a 1 + rotate l.b 7 + rotate l.c 12 + rotate l.d 18
  [l.a, l.b, l.c, l.d].foldl (fun h lane => (h ^^^ mix 0 lane) * prime1 + prime4) h

end Lanes

/-- Mixes the given number of stripes in and returns the bytes that are left. -/
def absorbAll : Nat → Lanes → List UInt8 → Lanes × List UInt8
  | 0, l, bytes => (l, bytes)
  | n + 1, l, bytes => absorbAll n (l.absorb (bytes.take 32)) (bytes.drop 32)

/-- Mixes single bytes into a word. -/
def mixBytes (h : UInt64) (bytes : List UInt8) : UInt64 :=
  bytes.foldl (fun h b => rotate (h ^^^ (b.toUInt64 * prime5)) 11 * prime1) h

/-- Mixes four bytes into a word, if there are as many, and then the rest one by one. -/
def mixHalf (h : UInt64) (bytes : List UInt8) : UInt64 :=
  if bytes.length < 4 then mixBytes h bytes
  else
    mixBytes (rotate (h ^^^ (little (bytes.take 4) * prime1)) 23 * prime2 + prime3) (bytes.drop 4)

/-- Mixes the given number of groups of eight bytes into a word, and then the rest. -/
def mixTail : Nat → UInt64 → List UInt8 → UInt64
  | 0, h, bytes => mixHalf h bytes
  | n + 1, h, bytes =>
    mixTail n (rotate (h ^^^ mix 0 (little (bytes.take 8))) 27 * prime1 + prime4) (bytes.drop 8)

/-- Mixes a word with itself. -/
def avalanche (h : UInt64) : UInt64 :=
  let h := (h ^^^ (h >>> 33)) * prime2
  let h := (h ^^^ (h >>> 29)) * prime3
  h ^^^ (h >>> 32)

/-- The hash of a byte sequence. -/
def hash64 (bytes : List UInt8) : UInt64 :=
  let size := bytes.length
  let (h, rest) :=
    if size < 32 then (prime5, bytes)
    else
      let (lanes, rest) := absorbAll (size / 32) Lanes.start bytes
      (lanes.merge, rest)
  avalanche (mixTail (rest.length / 8) (h + UInt64.ofNat size) rest)

/-- A hash as written: hexadecimal digits without leading zeros. -/
def hex (h : UInt64) : String := String.ofList (Nat.toDigits 16 h.toNat)

end Lantern.Hash
