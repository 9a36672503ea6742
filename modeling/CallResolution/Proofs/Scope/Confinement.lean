import Mathlib.Tactic
import CallResolution.Proofs.Scope.Frame
import CallResolution.Proofs.Scope.Indexing
import CallResolution.Proofs.Scope.Outwards

/-!
# What a look-up reads

In two graphs of the same frame a visit takes the same way as long as it finds the same, so
it gives the same result if the declarations within its reach are the same.  A look-up only
asks the scopes up to the one where it stops; what lies out of their reach it never reads.

This compares two runs step by step.  Results are the same lists in the same order, not
only the same sets.
-/

namespace CallResolution
namespace ScopeGraph

/-- Both graphs declare the same under the name wherever a visit of the scope may come. -/
def AgreeWithin (first second : ScopeGraph) (name : String) (scope : ScopeId) : Prop :=
  ∀ lower, first.Reaches name scope lower →
    first.declaredAs lower name = second.declaredAs lower name

/-- The scopes that a look-up asks: where it starts and then outwards, up to the first one
that offers something. -/
def Asks (graph : ScopeGraph) (name : String) : ScopeId → ScopeId → Prop :=
  graph.ComesTo fun scope => graph.offered name scope ≠ []

/-! ## Visits -/

section Visits

variable {first second : ScopeGraph} (hframe : SameFrame first second)
include hframe

/-- One visit reads the declarations of its own scope and nothing else. -/
theorem SameFrame.visitBy_eq {name : String} {scope : ScopeId}
    (hdeclared : first.declaredAs scope name = second.declaredAs scope name)
    (visit : ScopeId → List ScopeId → Walk) (seen : List ScopeId) :
    first.visitBy name visit scope seen = second.visitBy name visit scope seen := by
  unfold visitBy visitOwn
  rw [hframe.pulledFrom_eq, hframe.directBases_eq, hdeclared]

/-- A visit reads the declarations within its reach and nothing else. -/
theorem SameFrame.visit_eq {name : String} {scope : ScopeId}
    (hagree : AgreeWithin first second name scope) (depth : Nat) (seen : List ScopeId) :
    first.visit name depth scope seen = second.visit name depth scope seen := by
  induction depth generalizing scope seen with
  | zero => rfl
  | succ depth ih =>
      -- The visits that this one leads to reach no further than it does.
      have hbelow : ∀ lower, first.Feeds name scope lower → ∀ marks,
          first.visit name depth lower marks = second.visit name depth lower marks :=
        fun lower hfeeds marks =>
          ih (fun other hreach => hagree other (.head hfeeds hreach)) marks
      calc first.visit name (depth + 1) scope seen
          = first.visitBy name (first.visit name depth) scope seen := rfl
        _ = first.visitBy name (second.visit name depth) scope seen :=
            visitBy_congr (first.subset_visit name depth)
              (fun _ target hpulled marks _ => hbelow target (Or.inl hpulled) marks)
              (fun base hbase marks _ => hbelow base (Or.inr hbase) marks)
        _ = second.visitBy name (second.visit name depth) scope seen :=
            hframe.visitBy_eq (hagree scope .refl) _ seen
        _ = second.visit name (depth + 1) scope seen := rfl

theorem SameFrame.offered_eq {name : String} {scope : ScopeId}
    (hagree : AgreeWithin first second name scope) :
    first.offered name scope = second.offered name scope := by
  rw [offered, offered, hframe.walkBound_eq, hframe.visit_eq hagree]

end Visits

/-! ## Look-ups -/

/-- What scopes beyond the first offer would give does not matter. -/
theorem firstOffer_congr_of_comesTo {graph : ScopeGraph} (hbuilt : graph.Built)
    {offer other : ScopeId → List Signature} {start : ScopeId}
    (hsame : ∀ scope, graph.ComesTo (fun scope => offer scope ≠ []) start scope →
      offer scope = other scope) :
    graph.firstOffer offer start = graph.firstOffer other start := by
  induction hindex : start.index using Nat.strong_induction_on generalizing start with
  | _ index ih =>
      have hhere := hsame start (.here start)
      by_cases hnothing : offer start = []
      · have hneither : other start = [] := hhere ▸ hnothing
        cases houter : graph.outer? start with
        | none =>
            rw [firstOffer_of_outermost hnothing houter, firstOffer_of_outermost hneither houter]
        | some outer =>
            have holder := hbuilt.forest.outer_older hbuilt.grounded houter
            rw [firstOffer_of_outer hbuilt hnothing houter,
              firstOffer_of_outer hbuilt hneither houter]
            exact ih outer.index (hindex ▸ holder)
              (fun scope hcomes => hsame scope (.outwards (not_not_intro hnothing) houter hcomes))
              rfl
      · have hboth : other start ≠ [] := hhere ▸ hnothing
        rw [firstOffer_of_offers hnothing, firstOffer_of_offers hboth, hhere]

/-- A look-up reads the declarations within reach of the scopes that it asks. -/
theorem SameFrame.lookup_eq {first second : ScopeGraph} (hframe : SameFrame first second)
    (hbuilt : first.Built) {name : String} {start : ScopeId}
    (hagree : ∀ scope, first.Asks name start scope → AgreeWithin first second name scope) :
    first.lookup name start = second.lookup name start := by
  rw [lookup, lookup, ← hframe.firstOffer_eq]
  exact firstOffer_congr_of_comesTo hbuilt fun scope hasks => hframe.offered_eq (hagree scope hasks)

/-! ## One more declaration -/

section Declaration

variable {graph : ScopeGraph} {signature : Signature} (space : Option ScopeId)

theorem sameFrame_withSignature : SameFrame graph (graph.withSignature signature space) where
  size := (size_withSignature ..).symm
  kind _ := (kind?_withSignature ..).symm
  edges := (edges_withSignature ..).symm
  types := (types_withSignature ..).symm

/-- Neither another name nor another scope is affected. -/
theorem agreeWithin_withSignature (horigin : graph.holds signature.origin = true) {name : String}
    {scope : ScopeId}
    (hapart : signature.name ≠ name ∨ ¬ graph.Reaches name scope signature.origin) :
    AgreeWithin graph (graph.withSignature signature space) name scope := by
  intro lower hreach
  rw [declaredAs_withSignature _ _ _ _ _ horigin, if_neg, List.append_nil]
  rintro ⟨rfl, hname⟩
  rcases hapart with hother | hunreached
  · exact hother hname
  · exact hunreached hreach

end Declaration

end ScopeGraph
end CallResolution
