import CallResolution.Fingerprint.Xxh64

/-!
# Fingerprints of types and signatures

A type is known by the fingerprint of its qualified name, a declared signature
by the fingerprint of its name, its scope and one word per position.  Two
fingerprints are compared as plain 64-bit words; a fingerprint is NOT promised
to be injective on names.
-/

namespace CallResolution

/-- A 64-bit identity. -/
structure Fingerprint where
  bits : UInt64
  deriving DecidableEq, Repr

namespace Fingerprint

/-- Multiplier between positions.  It is odd, so multiplication by it loses nothing. -/
def separator : UInt64 := 0x4bc94d6bd06053ad

/-- Domain tag of type fingerprints. -/
def typeTag : UInt64 := 0x2fac10b63a6cc57c

/-- Domain tag of signature fingerprints. -/
def signatureTag : UInt64 := 0x5ea77ffbcdf5f302

/-- Markers of the first eight positions. -/
def markers : List UInt64 :=
  [0x9e3779b97f4a7c15, 0xbf58476d1ce4e5b9, 0x94d049bb133111eb, 0xd6e8feb86659fd93,
    0xe7037ed1a0b428db, 0xc6a4a7935bd1e995, 0x8648dbbc94d49b8d, 0xa2b48b2c69e0d657]

/-- The marker of a position; beyond the eighth it is the first marker plus the position. -/
def marker (position : Nat) : UInt64 :=
  (markers[position]?).getD (0x9e3779b97f4a7c15 + UInt64.ofNat position)

/-- Mix the words of positions `position`, `position + 1`, ... into a hash. -/
def mixWords : Nat → UInt64 → List UInt64 → UInt64
  | _, hash, [] => hash
  | position, hash, word :: rest =>
      mixWords (position + 1) (hash * separator + (marker position ^^^ word)) rest

/-- The fingerprint that belongs to no type. -/
def empty : Fingerprint := ⟨0⟩

def isEmpty (fingerprint : Fingerprint) : Bool :=
  fingerprint.bits == 0

/-- The fingerprint of a type, from its qualified name. -/
def ofName (name : String) : Fingerprint :=
  ⟨typeTag ^^^ Xxh64.digest name.toUTF8.toList 0⟩

/-- The fingerprint of a signature: `seed` numbers the scope that holds it, and
`words` has one entry per position. -/
def ofSignature (name : String) (seed : UInt64) (words : List UInt64) : Fingerprint :=
  ⟨mixWords 0 (signatureTag ^^^ Xxh64.digest name.toUTF8.toList seed) words⟩

/-- Sixteen lowercase hexadecimal digits after `0x`. -/
def text (fingerprint : Fingerprint) : String :=
  "0x" ++ String.ofList ((Nat.toDigits 16 fingerprint.bits.toNat).leftpad 16 '0')

/-- The text with the kind of identity written around it. -/
def labelledText (fingerprint : Fingerprint) : String :=
  "TypeHash(" ++ fingerprint.text ++ ")"

end Fingerprint
end CallResolution
