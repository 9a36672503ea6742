import CallResolution.Operator
import CallResolution.Scope.Lookup

/-!
# Collecting candidates

The signatures a call may mean, each with the look-up that found it.  A named call
sees the innermost overload set.  An operator sees the members of its left
operand's class, then the non-members around the call, then the namespaces that
own its operands' types; what is found again keeps its first source.
-/

namespace CallResolution

/-- Which look-up found a signature. -/
inductive Provenance where
  | member
  | lexical
  | argumentDependent
  deriving DecidableEq, Repr

namespace Provenance

def label : Provenance → String
  | .member => "member"
  | .lexical => "lexical"
  | .argumentDependent => "argument-dependent"

end Provenance

/-- A signature and the look-up that found it. -/
structure Proposal where
  signature : Signature
  source : Provenance
  deriving DecidableEq, Repr

namespace Proposal

/-- Signatures that one look-up found. -/
def foundBy (source : Provenance) (signatures : List Signature) : List Proposal :=
  signatures.map fun signature => ⟨signature, source⟩

/-- Add a proposal unless its signature is there already. -/
def push (proposals : List Proposal) (proposal : Proposal) : List Proposal :=
  if proposals.any (·.signature.fingerprint == proposal.signature.fingerprint) then proposals
  else proposals ++ [proposal]

end Proposal

namespace ScopeGraph

/-- The member operators of the left operand's class. -/
def memberCandidates (graph : ScopeGraph) (name : String) (operands : List Fingerprint) :
    List Signature :=
  match operands with
  | [] => []
  | left :: _ => (graph.lookupInClass left name).filter (·.isMember)

/-- The non-members that the call sees from its own scope. -/
def lexicalCandidates (graph : ScopeGraph) (name : String) (scope : ScopeId) : List Signature :=
  match graph.lookupFree name scope with
  | some (_, set) => set
  | none => []

/-- The namespaces that own the operands' types, each once. -/
def operandNamespaces (graph : ScopeGraph) (operands : List Fingerprint) : List ScopeId :=
  (operands.filterMap graph.home?).eraseDups

/-- The non-members that the operands' namespaces offer. -/
def associatedCandidates (graph : ScopeGraph) (name : String) (operands : List Fingerprint) :
    List Signature :=
  (graph.operandNamespaces operands).flatMap fun space =>
    (graph.lookupInSpace space name).filter (!·.isMember)

/-- The candidates of an operator, from all three sources. -/
def collectOperator (graph : ScopeGraph) (name : String) (scope : ScopeId)
    (operands : List Fingerprint) : List Proposal :=
  (Proposal.foundBy .member (graph.memberCandidates name operands) ++
    Proposal.foundBy .lexical (graph.lexicalCandidates name scope) ++
    Proposal.foundBy .argumentDependent (graph.associatedCandidates name operands)).foldl
      Proposal.push []

/-- The candidates of a call. -/
def collect (graph : ScopeGraph) (callee : Callee) (scope : ScopeId)
    (operands : List Fingerprint) : List Proposal :=
  match callee with
  | .named name =>
      match graph.lookup name scope with
      | some (_, set) => Proposal.foundBy .lexical set
      | none => []
  | .operator op => graph.collectOperator op.declaredName scope operands

end ScopeGraph
end CallResolution
