import CallResolution.Call.Ranking

/-!
# Resolving a call

A call is resolved by collecting its candidates, matching each of them, and
ranking those that match.  A call from an unknown scope, an operator with the wrong
number of operands and a malformed candidate are errors; not finding a best
candidate is an answer.
-/

namespace CallResolution

/-- A place in the program text. -/
structure Location where
  line : Nat
  column : Nat
  deriving DecidableEq, Repr

namespace Location

def text (location : Location) : String :=
  s!"{location.line}:{location.column}"

end Location

/-- One call in the program. -/
structure CallSite where
  id : Nat
  callee : Callee
  scope : ScopeId
  args : List Argument
  location : Location
  deriving DecidableEq, Repr

namespace CallSite

/-- The form in which reports show a call. -/
def idText (call : CallSite) : String :=
  s!"#{call.id}"

/-- The types that argument-dependent look-up starts from: none for a named call. -/
def operandTypes (call : CallSite) : List Fingerprint :=
  match call.callee with
  | .operator _ => call.args.map (·.type)
  | .named _ => []

end CallSite

/-- What a call resolves to. -/
inductive Resolution where
  | selected (candidate : Candidate)
  | noMatch (attempted : List Candidate)
  | ambiguous (tied : List Candidate)
  deriving DecidableEq, Repr

namespace Resolution

def kindName : Resolution → String
  | .selected _ => "selected"
  | .noMatch _ => "no-match"
  | .ambiguous _ => "ambiguous"

/-- The candidates that the outcome speaks of. -/
def candidates : Resolution → List Candidate
  | .selected candidate => [candidate]
  | .noMatch attempted => attempted
  | .ambiguous tied => tied

/-- The outcome among matched candidates. -/
def ofCandidates (matched : List Candidate) : Resolution :=
  match matched.filter (·.isViable) with
  | [] => .noMatch matched
  | viable =>
      match Candidate.unbeaten viable with
      | [best] => .selected best
      | tied => .ambiguous tied

end Resolution

/-- Why a call cannot be resolved at all. -/
inductive CallFault where
  | malformedSignature (defect : SignatureDefect)
  | unknownScope (call : Nat) (scope : ScopeId)
  | arity (call : Nat) (op : Operator) (found : Nat)
  | cancelled (completed : Nat)
  deriving DecidableEq, Repr

namespace CallFault

def message : CallFault → String
  | .malformedSignature defect => "malformed signature: " ++ defect.message
  | .unknownScope call scope => s!"call site {call} names unknown scope {scope.text}"
  | .arity call op found =>
      s!"call site {call}: operator '{op.symbol}' expects {op.arity} operand(s), got {found}"
  | .cancelled completed => s!"batch cancelled after {completed} call site(s)"

end CallFault

/-- A resolved call, with the number of its call site. -/
structure SettledCall where
  id : Nat
  resolution : Resolution
  deriving DecidableEq, Repr

/-- What calls are resolved against. -/
structure Program where
  graph : ScopeGraph
  table : ConversionTable
  deriving DecidableEq, Repr

namespace Program

/-- The checks that come before any look-up. -/
def checkCall (program : Program) (call : CallSite) : Except CallFault Unit := do
  unless program.graph.holds call.scope do
    throw (.unknownScope call.id call.scope)
  match call.callee with
  | .operator op =>
      unless call.args.length = op.arity do
        throw (.arity call.id op call.args.length)
  | .named _ => return

/-- The candidates of a call, in the order in which they are matched. -/
def collected (program : Program) (call : CallSite) : List Proposal :=
  program.graph.collect call.callee call.scope call.operandTypes

/-- Match every candidate of a call; the first malformed one is an error. -/
def matched (program : Program) (call : CallSite) : Except CallFault (List Candidate) :=
  (program.collected call).mapM fun proposal =>
    (proposal.matchArguments call.args program.table program.graph).mapError .malformedSignature

/-- Resolve one call. -/
def resolve (program : Program) (call : CallSite) : Except CallFault SettledCall := do
  program.checkCall call
  let candidates ← program.matched call
  return ⟨call.id, Resolution.ofCandidates candidates⟩

end Program
end CallResolution
