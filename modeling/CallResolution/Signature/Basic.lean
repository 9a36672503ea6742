import CallResolution.Signature.Parameter

/-!
# Signatures

A declared function, method or operator, its fingerprint, the shape that a
well-formed parameter list has, and the argument counts that it accepts.

Well-formed means: required parameters, then defaulted ones, then at most one
ellipsis.  `Signature.check` reports the first parameter that breaks this, and
looks at the receiver only if the parameter list is sound.  The counts are
defined for every signature, well-formed or not.
-/

namespace CallResolution

/-- The number of a scope.  The root has number zero. -/
structure ScopeId where
  index : Nat
  deriving DecidableEq, Repr

namespace ScopeId

def root : ScopeId := ⟨0⟩

/-- The form in which error messages show a scope. -/
def text (scope : ScopeId) : String :=
  s!"ScopeId({scope.index})"

end ScopeId

/-- What sort of function is declared. -/
inductive SignatureKind where
  | function
  | method
  | operator
  deriving DecidableEq, Repr

/-- A declared function, method or operator. -/
structure Signature where
  name : String
  origin : ScopeId
  kind : SignatureKind
  parameters : List Parameter
  receiver : Option Receiver
  deriving DecidableEq, Repr

/-- Why a signature is malformed. -/
inductive SignatureDefect where
  | ellipsisNotLast (name : String) (position : Nat)
  | multipleEllipsis (name : String)
  | defaultsNotTrailing (name : String) (position : Nat)
  | missingReceiver (name : String)
  | unexpectedReceiver (name : String)
  deriving DecidableEq, Repr

namespace SignatureDefect

def message : SignatureDefect → String
  | .ellipsisNotLast name position =>
      s!"'{name}': ellipsis parameter at position {position} is not last"
  | .multipleEllipsis name =>
      s!"'{name}': more than one ellipsis parameter"
  | .defaultsNotTrailing name position =>
      s!"'{name}': parameter {position} has no default but follows a defaulted parameter"
  | .missingReceiver name =>
      s!"'{name}': member function has no receiver"
  | .unexpectedReceiver name =>
      s!"'{name}': free function cannot have a receiver"

end SignatureDefect

namespace Signature

/-- One word per position: the receiver first, if there is one, then the parameters. -/
def words (signature : Signature) : List UInt64 :=
  (signature.receiver.map Receiver.word).toList ++ signature.parameters.map Parameter.word

/-- The identity of a declaration. -/
def fingerprint (signature : Signature) : Fingerprint :=
  Fingerprint.ofSignature signature.name (UInt64.ofNat signature.origin.index) signature.words

def isMember (signature : Signature) : Bool :=
  signature.receiver.isSome

/-- Check the parameters from `position` on.  `defaulted` says whether an earlier
parameter has a default. -/
def checkParameters (name : String) :
    Nat → Bool → List Parameter → Except SignatureDefect Unit
  | _, _, [] => .ok ()
  | position, defaulted, parameter :: rest =>
      if parameter.isEllipsis then
        if rest.any (·.isEllipsis) then
          .error (.multipleEllipsis name)
        else if rest.isEmpty then
          .ok ()
        else
          .error (.ellipsisNotLast name position)
      else if parameter.hasDefault then
        checkParameters name (position + 1) true rest
      else if defaulted then
        .error (.defaultsNotTrailing name position)
      else
        checkParameters name (position + 1) false rest

/-- Check that a method has a receiver and a free function has none. -/
def checkReceiver (signature : Signature) : Except SignatureDefect Unit :=
  match signature.kind, signature.receiver with
  | .method, none => .error (.missingReceiver signature.name)
  | .function, some _ => .error (.unexpectedReceiver signature.name)
  | _, _ => .ok ()

/-- Report the first defect of a signature. -/
def check (signature : Signature) : Except SignatureDefect Unit := do
  checkParameters signature.name 0 false signature.parameters
  signature.checkReceiver

/-- Whether the last parameter is an ellipsis. -/
def isVariadic (signature : Signature) : Bool :=
  (signature.parameters.getLast?).any (·.isEllipsis)

/-- The parameters without a trailing ellipsis. -/
def fixedParameters (signature : Signature) : List Parameter :=
  if signature.isVariadic then signature.parameters.dropLast else signature.parameters

/-- The least number of arguments. -/
def leastCount (signature : Signature) : Nat :=
  signature.fixedParameters.countP (fun parameter => !parameter.hasDefault)

/-- The greatest number of arguments, if there is one. -/
def mostCount? (signature : Signature) : Option Nat :=
  if signature.isVariadic then none else some signature.parameters.length

/-- Whether a call may supply `count` arguments. -/
def admits (signature : Signature) (count : Nat) : Bool :=
  signature.leastCount ≤ count && (signature.mostCount?).all (count ≤ ·)

end Signature
end CallResolution
