import CallResolution.Conversion.Route

/-!
# Binding arguments

Whether an argument may stand at a declared position, and at what price.  A
mutable reference takes only a mutable lvalue of exactly its type; every other
parameter takes whatever converts to it.
-/

namespace CallResolution

/-- How an argument is taken. -/
inductive Binding where
  | converted (conversion : Conversion)
  | ellipsis
  deriving DecidableEq, Repr

namespace Binding

def rank : Binding → Rank
  | .converted conversion => conversion.rank
  | .ellipsis => .ellipsis

end Binding

/-- Why an argument cannot be taken. -/
inductive BindRefusal where
  | mutableCategory (category : ValueCategory)
  | mutableType (source target : Fingerprint)
  | constReceiver
  | noConversion (source target : Fingerprint)
  | ambiguousConversion (source target : Fingerprint) (routes : Nat)
  deriving DecidableEq, Repr

namespace BindRefusal

/-- The failure of a conversion, as the failure of a binding. -/
def ofConversion (source target : Fingerprint) : ConversionFailure → BindRefusal
  | .noConversion => .noConversion source target
  | .ambiguous routes => .ambiguousConversion source target routes

/-- The failure in words. -/
def describe (graph : ScopeGraph) : BindRefusal → String
  | .mutableCategory category =>
      "cannot bind " ++ category.text ++ " to a mutable reference"
  | .mutableType source target =>
      "mutable reference to '" ++ graph.typeText target ++ "' cannot bind '" ++
        graph.typeText source ++ "'"
  | .constReceiver => "const operand for a non-const member"
  | .noConversion source target =>
      "no conversion from '" ++ graph.typeText source ++ "' to '" ++ graph.typeText target ++ "'"
  | .ambiguousConversion source target routes =>
      s!"{routes}" ++ " user-defined conversions from '" ++ graph.typeText source ++ "' to '" ++
        graph.typeText target ++ "'"

end BindRefusal

namespace Argument

/-- Bind an argument to a parameter. -/
def bind (arg : Argument) (parameter : Parameter) (table : ConversionTable)
    (graph : ScopeGraph) : Except BindRefusal Binding :=
  if parameter.isEllipsis then
    .ok .ellipsis
  else if parameter.mode = .mutableReference then
    if arg.category ≠ .mutableLvalue then
      .error (.mutableCategory arg.category)
    else if arg.type ≠ parameter.type then
      .error (.mutableType arg.type parameter.type)
    else
      .ok (.converted (Conversion.identity parameter.type))
  else
    match table.convert graph arg.type parameter.type with
    | .ok conversion => .ok (.converted conversion)
    | .error failure => .error (.ofConversion arg.type parameter.type failure)

/-- Bind an operand to a receiver.  Only the type itself and classes derived from it
are taken; configured conversions do not apply. -/
def bindAsReceiver (operand : Argument) (receiver : Receiver) (graph : ScopeGraph) :
    Except BindRefusal Binding :=
  if operand.category = .constLvalue ∧ receiver.isConst = false then
    .error .constReceiver
  else if operand.type = receiver.type then
    .ok (.converted (Conversion.identity operand.type))
  else if graph.derives operand.type receiver.type then
    .ok (.converted
      ⟨operand.type, receiver.type,
        .standardOnly ⟨.derivedToBase, operand.type, receiver.type⟩⟩)
  else
    .error (.noConversion operand.type receiver.type)

end Argument
end CallResolution
