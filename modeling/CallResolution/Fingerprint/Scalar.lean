import CallResolution.Fingerprint.Basic

/-!
# Built-in scalar types

The seven scalar types, in the order in which they are listed everywhere, and
the promotions between them.
-/

namespace CallResolution

/-- A built-in scalar type. -/
inductive Scalar where
  | bool
  | char
  | short
  | int
  | long
  | float
  | double
  deriving DecidableEq, Repr

namespace Scalar

/-- Every scalar, once. -/
def all : List Scalar :=
  [.bool, .char, .short, .int, .long, .float, .double]

def name : Scalar → String
  | .bool => "bool"
  | .char => "char"
  | .short => "short"
  | .int => "int"
  | .long => "long"
  | .float => "float"
  | .double => "double"

def fingerprint (scalar : Scalar) : Fingerprint :=
  Fingerprint.ofName scalar.name

/-- The scalar that this one promotes to, if any. -/
def promotesTo : Scalar → Option Scalar
  | .bool | .char | .short => some .int
  | .float => some .double
  | .int | .long | .double => none

end Scalar
end CallResolution
