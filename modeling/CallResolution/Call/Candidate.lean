import CallResolution.Call.Collect
import CallResolution.Conversion.Binding

/-!
# Matching one candidate

A candidate is matched against the arguments from left to right, and matching
stops at the first argument that does not bind.  In an operator call a member
takes its left operand as receiver; in a named call the receiver takes nothing.
Parameters beyond the arguments are filled by their defaults, which count as exact
but take no part in ranking.
-/

namespace CallResolution

/-- The rank at one position of a match. -/
inductive PlaceRank where
  | supplied (rank : Rank)
  | defaulted
  deriving DecidableEq, Repr

namespace PlaceRank

def rank : PlaceRank → Rank
  | .supplied rank => rank
  | .defaulted => .exact

/-- The rank of a supplied argument. -/
def suppliedRank? : PlaceRank → Option Rank
  | .supplied rank => some rank
  | .defaulted => none

end PlaceRank

/-- Why a candidate is not viable. -/
inductive Mismatch where
  | arity (least : Nat) (most : Option Nat) (found : Nat)
  | position (place : Nat) (reason : BindRefusal)
  deriving DecidableEq, Repr

/-- A candidate after matching. -/
structure Candidate where
  signature : Signature
  source : Provenance
  positions : List PlaceRank
  bindings : List Binding
  failure : Option Mismatch
  deriving DecidableEq, Repr

namespace Candidate

def isViable (candidate : Candidate) : Bool :=
  candidate.failure.isNone

/-- The ranks of the supplied arguments. -/
def suppliedRanks (candidate : Candidate) : List Rank :=
  candidate.positions.filterMap PlaceRank.suppliedRank?

/-- The worst rank of all positions; exact if there is none. -/
def poorestRank (candidate : Candidate) : Rank :=
  (candidate.positions.map PlaceRank.rank).foldl Rank.worst .exact

end Candidate

/-- A declared position that an argument is bound to. -/
inductive Slot where
  | receiver (taker : Receiver)
  | parameter (taker : Parameter)
  deriving DecidableEq, Repr

namespace Slot

/-- Bind an argument to a slot. -/
def bind (slot : Slot) (arg : Argument) (table : ConversionTable) (graph : ScopeGraph) :
    Except BindRefusal Binding :=
  match slot with
  | .receiver taker => arg.bindAsReceiver taker graph
  | .parameter taker => arg.bind taker table graph

end Slot

namespace Signature

/-- The receiver, if it takes the left operand of the call. -/
def operandReceiver (signature : Signature) : Option Receiver :=
  if signature.kind = .operator then signature.receiver else none

/-- The slots that arguments can be bound to, before any ellipsis. -/
def slots (signature : Signature) : List Slot :=
  (signature.operandReceiver.map Slot.receiver).toList ++
    signature.fixedParameters.map Slot.parameter

/-- How many slots stand before the parameters: one for a receiver that takes an
operand, otherwise none. -/
def receiverCount (signature : Signature) : Nat :=
  if signature.operandReceiver.isSome then 1 else 0

/-- The least number of arguments of a call, a receiver operand included. -/
def leastArguments (signature : Signature) : Nat :=
  signature.leastCount + signature.receiverCount

/-- The greatest number of arguments of a call, a receiver operand included. -/
def mostArguments (signature : Signature) : Option Nat :=
  signature.mostCount?.map (· + signature.receiverCount)

/-- Whether a call may have this many arguments. -/
def acceptsArguments (signature : Signature) (count : Nat) : Bool :=
  signature.receiverCount ≤ count && signature.admits (count - signature.receiverCount)

end Signature

/-- The outcome of binding arguments: the bindings, the slots left over, and the first
failure with its position. -/
structure BoundArguments where
  bindings : List Binding
  unfilled : List Slot
  failure : Option (Nat × BindRefusal)
  deriving DecidableEq, Repr

/-- Bind arguments to slots, and to an ellipsis beyond the last slot. -/
def bindArguments (table : ConversionTable) (graph : ScopeGraph) :
    Nat → List Slot → List Argument → BoundArguments
  | _, slots, [] => ⟨[], slots, none⟩
  | position, slots, arg :: rest =>
      let slot := slots.head?.getD (.parameter .ellipsis)
      match slot.bind arg table graph with
      | .error reason => ⟨[], slots.tail, some (position, reason)⟩
      | .ok binding =>
          let bound := bindArguments table graph (position + 1) slots.tail rest
          { bound with bindings := binding :: bound.bindings }

namespace BoundArguments

/-- The rank at every position: those bound, then either the failing one or the
defaults. -/
def positions (bound : BoundArguments) : List PlaceRank :=
  bound.bindings.map (fun binding => .supplied binding.rank) ++
    match bound.failure with
    | some _ => [.supplied .inapplicable]
    | none => bound.unfilled.map fun _ => .defaulted

end BoundArguments

namespace Proposal

/-- A candidate that the number of arguments rules out. -/
def arityMismatch (proposal : Proposal) (count : Nat) : Candidate where
  signature := proposal.signature
  source := proposal.source
  positions := []
  bindings := []
  failure := some (.arity proposal.signature.leastArguments proposal.signature.mostArguments count)

/-- A candidate whose arguments were bound as far as possible. -/
def ofBound (proposal : Proposal) (bound : BoundArguments) : Candidate where
  signature := proposal.signature
  source := proposal.source
  positions := bound.positions
  bindings := bound.bindings
  failure := bound.failure.map fun (place, reason) => .position place reason

/-- Match a candidate against the arguments of a call.  A malformed signature is an
error, not a failed match. -/
def matchArguments (proposal : Proposal) (args : List Argument) (table : ConversionTable)
    (graph : ScopeGraph) : Except SignatureDefect Candidate := do
  proposal.signature.check
  if proposal.signature.acceptsArguments args.length then
    return proposal.ofBound (bindArguments table graph 0 proposal.signature.slots args)
  else
    return proposal.arityMismatch args.length

end Proposal

/-! ## Failures in words -/

namespace Mismatch

/-- The number of arguments that a signature asks for, in words. -/
def describeCount (least : Nat) : Option Nat → String
  | none => s!"at least {least}"
  | some most => if most = least then s!"{least}" else s!"{least} to {most}"

def describe (graph : ScopeGraph) : Mismatch → String
  | .arity least most found =>
      s!"expects {describeCount least most} argument(s), got {found}"
  | .position place reason =>
      s!"argument {place + 1}: {reason.describe graph}"

end Mismatch
end CallResolution
