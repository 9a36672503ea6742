import CallResolution.Fingerprint.Basic

/-!
# Parameters, receivers and arguments

What a declared position accepts, and what a call supplies.
-/

namespace CallResolution

/-- How a parameter takes its argument. -/
inductive PassingMode where
  | byValue
  | constReference
  | mutableReference
  deriving DecidableEq, Repr

namespace PassingMode

/-- The two-bit code that enters a signature's fingerprint. -/
def code : PassingMode → UInt64
  | .byValue => 0
  | .constReference => 1
  | .mutableReference => 2

def text : PassingMode → String
  | .byValue => ""
  | .constReference => "const&"
  | .mutableReference => "&"

end PassingMode

/-- One declared parameter.  An ellipsis keeps a type and a mode of its own, which
only `Parameter` itself can see: no argument is ever bound to them. -/
structure Parameter where
  type : Fingerprint
  mode : PassingMode
  hasDefault : Bool
  isEllipsis : Bool
  deriving DecidableEq, Repr

namespace Parameter

/-- A plain ellipsis. -/
def ellipsis : Parameter where
  type := Fingerprint.empty
  mode := .byValue
  hasDefault := false
  isEllipsis := true

/-- The word of this parameter in its signature's fingerprint.  The passing mode is
folded into the lowest two bits, so that `f(int&)` and `f(int)` differ. -/
def word (parameter : Parameter) : UInt64 :=
  if parameter.isEllipsis then 0 else parameter.type.bits ^^^ parameter.mode.code

end Parameter

/-- The object a member function is called on. -/
structure Receiver where
  type : Fingerprint
  isConst : Bool
  deriving DecidableEq, Repr

namespace Receiver

/-- The word of the receiver in its signature's fingerprint. -/
def word (receiver : Receiver) : UInt64 :=
  receiver.type.bits ^^^ (if receiver.isConst then 1 else 0)

end Receiver

/-- The value category of an expression. -/
inductive ValueCategory where
  | mutableLvalue
  | constLvalue
  | rvalue
  deriving DecidableEq, Repr

namespace ValueCategory

def text : ValueCategory → String
  | .mutableLvalue => "lvalue"
  | .constLvalue => "const lvalue"
  | .rvalue => "rvalue"

end ValueCategory

/-- One supplied argument. -/
structure Argument where
  type : Fingerprint
  category : ValueCategory
  deriving DecidableEq, Repr

end CallResolution
