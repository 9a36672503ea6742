import CallResolution.Conversion.Table
import CallResolution.Rank
import CallResolution.Scope.Query

/-!
# Implicit conversions

An implicit conversion is nothing at all, one standard step, one user-defined
step, or a user-defined step followed by a standard one.  A standard step is a
configured rule or, failing that, the way from a class to one of its bases.

User-defined routes compete on the standard step that follows them; only a tie at
the best level makes a conversion ambiguous.
-/

namespace CallResolution

/-- What a standard step rests on. -/
inductive StepBasis where
  | configured (kind : RuleKind)
  | derivedToBase
  deriving DecidableEq, Repr

/-- One standard step. -/
structure Step where
  kind : StepBasis
  source : Fingerprint
  target : Fingerprint
  deriving DecidableEq, Repr

namespace Step

def rank (step : Step) : Rank :=
  match step.kind with
  | .configured .promotion => .promotion
  | .configured .standard => .standard
  | .derivedToBase => .standard

end Step

/-- The steps of an implicit conversion. -/
inductive Route where
  | trivial
  | standardOnly (step : Step)
  | userOnly (rule : UserRule)
  | userThenStandard (rule : UserRule) (step : Step)
  deriving DecidableEq, Repr

namespace Route

def rank : Route → Rank
  | .trivial => .exact
  | .standardOnly step => step.rank
  | .userOnly _ => .userDefined
  | .userThenStandard _ _ => .userDefined

/-- The rank of the step after the user-defined one. -/
def tailRank : Route → Rank
  | .userThenStandard _ step => step.rank
  | _ => .exact

/-- The user-defined step, if there is one. -/
def userRule? : Route → Option UserRule
  | .userOnly rule => some rule
  | .userThenStandard rule _ => some rule
  | _ => none

/-- The standard step, if there is one. -/
def step? : Route → Option Step
  | .standardOnly step => some step
  | .userThenStandard _ step => some step
  | _ => none

/-- The name of a route's form. -/
def formName : Route → String
  | .trivial => "trivial"
  | .standardOnly _ => "standard-only"
  | .userOnly _ => "one-user-defined"
  | .userThenStandard _ _ => "user-defined-then-standard"

end Route

/-- A conversion from one type to another. -/
structure Conversion where
  source : Fingerprint
  target : Fingerprint
  route : Route
  deriving DecidableEq, Repr

namespace Conversion

/-- The conversion of a type to itself. -/
def identity (type : Fingerprint) : Conversion where
  source := type
  target := type
  route := .trivial

def rank (conversion : Conversion) : Rank :=
  conversion.route.rank

def isExact (conversion : Conversion) : Bool :=
  conversion.route = .trivial

end Conversion

/-- Why there is no implicit conversion. -/
inductive ConversionFailure where
  | noConversion
  | ambiguous (routes : Nat)
  deriving DecidableEq, Repr

namespace ConversionTable

/-- The standard step between two types. -/
def step? (table : ConversionTable) (graph : ScopeGraph) (source target : Fingerprint) :
    Option Step :=
  match table.standardKind? source target with
  | some kind => some ⟨.configured kind, source, target⟩
  | none =>
      if graph.derives source target then some ⟨.derivedToBase, source, target⟩ else none

/-- The route to `target` that starts with this rule. -/
def routeThrough (table : ConversionTable) (graph : ScopeGraph) (target : Fingerprint)
    (rule : UserRule) : Option Route :=
  if rule.target = target then
    some (.userOnly rule)
  else
    (table.step? graph rule.target target).map (.userThenStandard rule)

/-- All user-defined routes between two types, in the order of their rules. -/
def userRoutes (table : ConversionTable) (graph : ScopeGraph) (source target : Fingerprint) :
    List Route :=
  (table.rulesFrom source).filterMap (table.routeThrough graph target)

/-- The best of several user-defined routes. -/
def selectRoute (routes : List Route) : Except ConversionFailure Route :=
  let best := (routes.map Route.tailRank).foldl Rank.best .inapplicable
  match routes.filter (·.tailRank = best) with
  | [] => .error .noConversion
  | [route] => .ok route
  | tied => .error (.ambiguous tied.length)

/-- The implicit conversion between two types. -/
def convert (table : ConversionTable) (graph : ScopeGraph) (source target : Fingerprint) :
    Except ConversionFailure Conversion :=
  if source = target then
    .ok (Conversion.identity source)
  else
    match table.step? graph source target with
    | some step => .ok ⟨source, target, .standardOnly step⟩
    | none => (selectRoute (table.userRoutes graph source target)).map (⟨source, target, ·⟩)

end ConversionTable
end CallResolution
