import CallResolution.Scope.Query

/-!
# Signatures as text

Types are shown by their qualified names, so the text of a signature depends on
the graph it is read in.
-/

namespace CallResolution
namespace ScopeGraph

/-- One parameter as it is shown in a signature. -/
def parameterText (graph : ScopeGraph) (parameter : Parameter) : String :=
  if parameter.isEllipsis then
    "..."
  else
    let name := graph.typeText parameter.type
    let passed :=
      match parameter.mode with
      | .byValue => name
      | .constReference => "const " ++ name ++ "&"
      | .mutableReference => name ++ "&"
    if parameter.hasDefault then passed ++ " = <default>" else passed

/-- A signature with its qualified name. -/
def signatureText (graph : ScopeGraph) (signature : Signature) : String :=
  let parameters := ", ".intercalate (signature.parameters.map graph.parameterText)
  let qualified := graph.qualify signature.origin signature.name
  let suffix :=
    if signature.kind ≠ .function ∧ (signature.receiver.any (·.isConst)) then " const" else ""
  qualified ++ "(" ++ parameters ++ ")" ++ suffix

/-- A list of arguments, as it is shown in a call. -/
def argumentsText (graph : ScopeGraph) (args : List Argument) : String :=
  ", ".intercalate <| args.map fun arg =>
    let name := graph.typeText arg.type
    match arg.category with
    | .rvalue => name
    | .mutableLvalue => name ++ " lvalue"
    | .constLvalue => "const " ++ name ++ " lvalue"

end ScopeGraph
end CallResolution
