import CallResolution.Call.Candidate

/-!
# Ranking candidates

One candidate beats another if it is better at some supplied argument and worse at
none.  The candidates that nobody beats are kept, in their order.
-/

namespace CallResolution

/-- The outcome of comparing two candidates. -/
inductive Comparison where
  | firstBetter
  | secondBetter
  | tie
  deriving DecidableEq, Repr

namespace Candidate

/-- Whether some supplied argument ranks better in the first list than in the second. -/
def winsSomewhere (first second : List Rank) : Bool :=
  (first.zip second).any fun (a, b) => b < a

/-- Compare two candidates argument by argument. -/
def better (first second : Candidate) : Comparison :=
  match winsSomewhere first.suppliedRanks second.suppliedRanks,
      winsSomewhere second.suppliedRanks first.suppliedRanks with
  | true, false => .firstBetter
  | false, true => .secondBetter
  | _, _ => .tie

def beats (first second : Candidate) : Bool :=
  first.better second = .firstBetter

/-- Whether no candidate of the list beats this one.  A candidate never beats itself. -/
def isUnbeaten (candidates : List Candidate) (candidate : Candidate) : Bool :=
  !candidates.any (·.beats candidate)

/-- The candidates that nobody beats. -/
def unbeaten (candidates : List Candidate) : List Candidate :=
  candidates.filter (isUnbeaten candidates)

/-- The places of the candidates that nobody beats. -/
def unbeatenPlaces (candidates : List Candidate) : List Nat :=
  (candidates.zipIdx.filter fun (candidate, _) => isUnbeaten candidates candidate).map (·.2)

end Candidate
end CallResolution
