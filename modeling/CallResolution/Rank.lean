/-!
# Conversion ranks

How good a conversion is, from "cannot be used at all" to "no conversion needed".
Ranks are totally ordered by `Rank.level`; a greater level is better.
-/

namespace CallResolution

/-- The quality of one conversion, worst first. -/
inductive Rank where
  | inapplicable
  | ellipsis
  | userDefined
  | standard
  | promotion
  | exact
  deriving DecidableEq, Repr

namespace Rank

/-- The place of a rank in the order; greater is better. -/
def level : Rank → Nat
  | .inapplicable => 0
  | .ellipsis => 1
  | .userDefined => 2
  | .standard => 3
  | .promotion => 4
  | .exact => 5

instance : LT Rank where
  lt a b := a.level < b.level

instance : LE Rank where
  le a b := a.level ≤ b.level

instance (a b : Rank) : Decidable (a < b) :=
  inferInstanceAs (Decidable (a.level < b.level))

instance (a b : Rank) : Decidable (a ≤ b) :=
  inferInstanceAs (Decidable (a.level ≤ b.level))

/-- The better of two ranks. -/
def best (a b : Rank) : Rank :=
  if a ≤ b then b else a

/-- The worse of two ranks. -/
def worst (a b : Rank) : Rank :=
  if a ≤ b then a else b

/-- Compare two ranks; `gt` says that the first is better. -/
def order (a b : Rank) : Ordering :=
  compare a.level b.level

def isApplicable (rank : Rank) : Bool :=
  rank != .inapplicable

def label : Rank → String
  | .exact => "exact"
  | .promotion => "promotion"
  | .standard => "standard"
  | .userDefined => "user-defined"
  | .ellipsis => "ellipsis"
  | .inapplicable => "inapplicable"

/-- Every rank, best first. -/
def bestToWorst : List Rank :=
  [.exact, .promotion, .standard, .userDefined, .ellipsis, .inapplicable]

/-- Read a label back. -/
def ofLabel? (label : String) : Option Rank :=
  bestToWorst.find? (·.label == label)

end Rank
end CallResolution
