import Mathlib.Tactic
import CallResolution.Proofs.Scope.Walk

/-!
# Graphs that differ in declarations only

Two graphs have the same frame if they have the same scopes, edges and types.  Where a scope
is contained, what it pulls in and inherits, and which class derives from which are questions
about the frame, and so is the way outwards from a scope.
-/

namespace CallResolution
namespace ScopeGraph

/-- The same scopes, edges and types.  What is declared in the scopes may differ. -/
structure SameFrame (first second : ScopeGraph) : Prop where
  size : first.size = second.size
  kind : ∀ scope, first.kind? scope = second.kind? scope
  edges : first.edges = second.edges
  types : first.types = second.types

section Questions

variable {first second : ScopeGraph} (hframe : SameFrame first second)
include hframe

theorem SameFrame.holds_eq (scope : ScopeId) : first.holds scope = second.holds scope := by
  rw [Bool.eq_iff_iff, holds_iff, holds_iff, hframe.size]

theorem SameFrame.walkBound_eq : first.walkBound = second.walkBound := by
  rw [walkBound, walkBound, hframe.size]

theorem SameFrame.pulledFrom_eq (scope : ScopeId) (name : String) :
    first.pulledFrom scope name = second.pulledFrom scope name := by
  rw [pulledFrom, pulledFrom, hframe.edges]

theorem SameFrame.body?_eq (type : Fingerprint) : first.body? type = second.body? type := by
  rw [body?, body?, registered?, registered?, hframe.types]

theorem SameFrame.directBases_eq (scope : ScopeId) :
    first.directBases scope = second.directBases scope := by
  have hbody : first.body? = second.body? := funext hframe.body?_eq
  unfold directBases registered?
  rw [hframe.kind, hframe.types, hbody]

theorem SameFrame.climb_eq (steps : Nat) (scope : ScopeId) :
    first.climb steps scope = second.climb steps scope := by
  induction steps generalizing scope with
  | zero => rfl
  | succ steps ih =>
      have houter : first.outer? scope = second.outer? scope := by
        rw [outer?, outer?, hframe.edges]
      rw [climb, climb, houter]
      cases second.outer? scope with
      | none => rfl
      | some outer => exact congrArg (scope :: ·) (ih outer)

theorem SameFrame.enclosing_eq (start : ScopeId) :
    first.enclosing start = second.enclosing start :=
  hframe.climb_eq start.index start

theorem SameFrame.firstOffer_eq (offer : ScopeId → List Signature) (start : ScopeId) :
    first.firstOffer offer start = second.firstOffer offer start := by
  rw [firstOffer, firstOffer, hframe.enclosing_eq]

theorem SameFrame.derives_eq : first.derives = second.derives := by
  have hinherited : first.inheritedScopes = second.inheritedScopes := by
    funext scope
    rw [inheritedScopes, inheritedScopes, hframe.edges]
  funext derived base
  rw [derives, derives, hframe.body?_eq, hframe.body?_eq, hinherited, hframe.size]

theorem SameFrame.reaches_eq (name : String) : first.Reaches name = second.Reaches name := by
  have hfeeds : first.Feeds name = second.Feeds name := by
    funext upper lower
    rw [Feeds, Feeds, hframe.pulledFrom_eq, hframe.directBases_eq]
  rw [Reaches, hfeeds]

end Questions

end ScopeGraph
end CallResolution
