/-!
# The XXH64 digest

The 64-bit member of the xxHash family, over a finite list of bytes and a
64-bit seed.  All arithmetic wraps modulo `2 ^ 64`.

Whole stripes of 32 bytes are absorbed by four lanes; what is left is absorbed
as 8-byte words, then at most one 4-byte word, then single bytes.  Nothing here
depends on the names that are later digested.
-/

namespace CallResolution
namespace Xxh64

def prime1 : UInt64 := 0x9E3779B185EBCA87

def prime2 : UInt64 := 0xC2B2AE3D27D4EB4F

def prime3 : UInt64 := 0x165667B19E3779F9

def prime4 : UInt64 := 0x85EBCA77C2B2AE63

def prime5 : UInt64 := 0x27D4EB2F165667C5

/-- Rotate a word to the left by `count` bits, for `0 < count < 64`. -/
def rotate (word count : UInt64) : UInt64 :=
  (word <<< count) ||| (word >>> (64 - count))

/-- Read bytes as one little-endian word; bytes beyond the eighth fall off. -/
def littleEndian (bytes : List UInt8) : UInt64 :=
  bytes.foldr (fun byte word => (word <<< 8) ||| byte.toUInt64) 0

/-- Absorb one word into an accumulator. -/
def absorb (accumulator word : UInt64) : UInt64 :=
  rotate (accumulator + word * prime2) 31 * prime1

/-- The four accumulators of the stripe phase. -/
structure Lanes where
  first : UInt64
  second : UInt64
  third : UInt64
  fourth : UInt64

namespace Lanes

/-- The lanes before any stripe. -/
def start (seed : UInt64) : Lanes where
  first := seed + prime1 + prime2
  second := seed + prime2
  third := seed
  fourth := seed - prime1

/-- Absorb one stripe of 32 bytes, eight bytes per lane. -/
def absorbStripe (lanes : Lanes) (stripe : List UInt8) : Lanes where
  first := absorb lanes.first (littleEndian (stripe.take 8))
  second := absorb lanes.second (littleEndian ((stripe.drop 8).take 8))
  third := absorb lanes.third (littleEndian ((stripe.drop 16).take 8))
  fourth := absorb lanes.fourth (littleEndian ((stripe.drop 24).take 8))

/-- Absorb `count` stripes; the second component is what follows them. -/
def absorbStripes : Nat → Lanes → List UInt8 → Lanes × List UInt8
  | 0, lanes, bytes => (lanes, bytes)
  | count + 1, lanes, bytes =>
      absorbStripes count (lanes.absorbStripe (bytes.take 32)) (bytes.drop 32)

/-- Fold one lane into the converging word. -/
def mergeLane (word lane : UInt64) : UInt64 :=
  (word ^^^ absorb 0 lane) * prime1 + prime4

/-- The single word that the four lanes converge to. -/
def converge (lanes : Lanes) : UInt64 :=
  let word :=
    rotate lanes.first 1 + rotate lanes.second 7 + rotate lanes.third 12 +
      rotate lanes.fourth 18
  [lanes.first, lanes.second, lanes.third, lanes.fourth].foldl mergeLane word

end Lanes

/-- Absorb `count` 8-byte words of the tail. -/
def absorbWords : Nat → UInt64 → List UInt8 → UInt64 × List UInt8
  | 0, hash, bytes => (hash, bytes)
  | count + 1, hash, bytes =>
      absorbWords count
        (rotate (hash ^^^ absorb 0 (littleEndian (bytes.take 8))) 27 * prime1 + prime4)
        (bytes.drop 8)

/-- Absorb a 4-byte word of the tail, if there is one. -/
def absorbHalfWord (hash : UInt64) (bytes : List UInt8) : UInt64 × List UInt8 :=
  if 4 ≤ bytes.length then
    (rotate (hash ^^^ littleEndian (bytes.take 4) * prime1) 23 * prime2 + prime3, bytes.drop 4)
  else
    (hash, bytes)

/-- Absorb one byte of the tail. -/
def absorbByte (hash : UInt64) (byte : UInt8) : UInt64 :=
  rotate (hash ^^^ byte.toUInt64 * prime5) 11 * prime1

/-- Spread every bit of the state over the result. -/
def avalanche (hash : UInt64) : UInt64 :=
  let hash := (hash ^^^ (hash >>> 33)) * prime2
  let hash := (hash ^^^ (hash >>> 29)) * prime3
  hash ^^^ (hash >>> 32)

/-- The XXH64 digest of a byte list. -/
def digest (bytes : List UInt8) (seed : UInt64) : UInt64 :=
  let (hash, tail) :=
    if 32 ≤ bytes.length then
      let (lanes, tail) := Lanes.absorbStripes (bytes.length / 32) (Lanes.start seed) bytes
      (lanes.converge, tail)
    else
      (seed + prime5, bytes)
  let (hash, tail) := absorbWords (tail.length / 8) (hash + UInt64.ofNat bytes.length) tail
  let (hash, tail) := absorbHalfWord hash tail
  avalanche (tail.foldl absorbByte hash)

end Xxh64
end CallResolution
