import CallResolution.Call.Resolution
import CallResolution.Scope.Render

/-!
# Reports

The outcome of a call in words, as one line per candidate.
-/

namespace CallResolution

namespace Candidate

/-- A candidate's signature and source, then its failure or the ranks of its arguments. -/
def line (graph : ScopeGraph) (candidate : Candidate) : String :=
  let detail :=
    match candidate.failure with
    | some failure => failure.describe graph
    | none => "[" ++ ", ".intercalate (candidate.suppliedRanks.map Rank.label) ++ "]"
  graph.signatureText candidate.signature ++ " (" ++ candidate.source.label ++ "): " ++ detail

/-- One indented line per candidate, each after a line break. -/
def block (graph : ScopeGraph) (candidates : List Candidate) : String :=
  String.join (candidates.map fun candidate => "\n  candidate: " ++ candidate.line graph)

end Candidate

/-- Why a call has no single best candidate. -/
inductive ComplaintKind where
  | noMatchingOverload
  | ambiguousOverload
  deriving DecidableEq, Repr

/-- A call without a single best candidate, ready to be reported. -/
structure Complaint where
  kind : ComplaintKind
  name : String
  args : String
  candidates : String
  location : Location
  deriving DecidableEq, Repr

namespace Complaint

def message (error : Complaint) : String :=
  let complaint :=
    match error.kind with
    | .noMatchingOverload => "no matching overload for"
    | .ambiguousOverload => "ambiguous call to"
  s!"at {error.location.text}: {complaint} '{error.name}({error.args})'{error.candidates}"

/-- Describe a call and the candidates that did not settle it. -/
def ofCall (kind : ComplaintKind) (graph : ScopeGraph) (call : CallSite)
    (candidates : List Candidate) : Complaint where
  kind := kind
  name := call.callee.lookupName
  args := graph.argumentsText call.args
  candidates := Candidate.block graph candidates
  location := call.location

end Complaint

namespace Resolution

/-- The selected candidate, or the reason why there is none. -/
def toExcept (resolution : Resolution) (graph : ScopeGraph) (call : CallSite) :
    Except Complaint Candidate :=
  match resolution with
  | .selected candidate => .ok candidate
  | .noMatch attempted => .error (.ofCall .noMatchingOverload graph call attempted)
  | .ambiguous tied => .error (.ofCall .ambiguousOverload graph call tied)

/-- The whole outcome in words. -/
def report (resolution : Resolution) (graph : ScopeGraph) (call : CallSite) : String :=
  match resolution.toExcept graph call with
  | .ok candidate => s!"{call.idText} at {call.location.text}: selected {candidate.line graph}"
  | .error error => s!"{call.idText}: {error.message}"

end Resolution
end CallResolution
