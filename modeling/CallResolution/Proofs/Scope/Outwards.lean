import Mathlib.Logic.Relation
import Mathlib.Tactic
import CallResolution.Proofs.Scope.Exhaustion
import CallResolution.Proofs.Scope.Forest

/-!
# Where a look-up stops

A look-up asks a scope, then the scope that contains it, and so on, and stops at the first
one that offers anything.  Climbing spends a number of steps that is taken from the number
of the scope; in a graph built by commands the steps do not run out, and a look-up is its own
recursion along the outer scopes.

What a scope offers is not always all that it should offer, but it is nothing only where
nothing can be reached.  So the look-up stops at the first scope from which pull-ins and
bases lead to a declaration, whether or not they run in circles.
-/

namespace CallResolution
namespace ScopeGraph

/-- The second scope contains the first, directly or not, or is the first. -/
def LiesIn (graph : ScopeGraph) : ScopeId → ScopeId → Prop :=
  Relation.ReflTransGen fun inner outer => graph.outer? inner = some outer

/-- On the way outwards from the first scope, which ends where `stops` holds, one comes to
the second. -/
inductive ComesTo (graph : ScopeGraph) (stops : ScopeId → Prop) : ScopeId → ScopeId → Prop
  | here (scope : ScopeId) : ComesTo graph stops scope scope
  | outwards {start outer scope : ScopeId} (hpasses : ¬ stops start)
      (houter : graph.outer? start = some outer) (hcomes : ComesTo graph stops outer scope) :
      ComesTo graph stops start scope

section Way

variable {graph : ScopeGraph} {stops others : ScopeId → Prop} {start scope : ScopeId}

theorem ComesTo.congr (hcomes : graph.ComesTo stops start scope)
    (hsame : ∀ scope, stops scope ↔ others scope) : graph.ComesTo others start scope := by
  induction hcomes with
  | here scope => exact .here scope
  | outwards hpasses houter _ ih =>
      exact .outwards (fun hother => hpasses ((hsame _).mpr hother)) houter ih

theorem ComesTo.liesIn (hcomes : graph.ComesTo stops start scope) : graph.LiesIn start scope := by
  induction hcomes with
  | here => exact .refl
  | outwards _ houter _ ih => exact .head houter ih

end Way

/-! ## Steps do not run out -/

section Chain

variable {graph : ScopeGraph} (hforest : graph.Forest) (hgrounded : graph.Grounded)
include hforest hgrounded

theorem Forest.climb_eq_enclosing {steps : Nat} {scope : ScopeId}
    (henough : scope.index ≤ steps) : graph.climb steps scope = graph.enclosing scope := by
  -- Both climbs go to an older scope, so each has a step left for every scope on the way.
  suffices hboth : ∀ more, scope.index ≤ more → graph.climb steps scope = graph.climb more scope
    from hboth scope.index (Nat.le_refl _)
  induction steps generalizing scope with
  | zero =>
      intro more _
      have houter : graph.outer? scope = none := by
        rw [Option.eq_none_iff_forall_ne_some]
        intro outer houter
        have hlt := hforest.outer_older hgrounded houter
        omega
      cases more with
      | zero => rfl
      | succ more => rw [climb, climb, houter]
  | succ steps ih =>
      intro more hmore
      cases houter : graph.outer? scope with
      | none =>
          cases more with
          | zero => rw [climb, climb, houter]
          | succ more => rw [climb, climb, houter]
      | some outer =>
          have hlt := hforest.outer_older hgrounded houter
          obtain ⟨rest, rfl⟩ : ∃ rest, more = rest + 1 :=
            Nat.exists_eq_succ_of_ne_zero (by omega)
          rw [climb, climb, houter]
          exact congrArg (scope :: ·) (ih (by omega) rest (by omega))

omit hforest hgrounded in
theorem enclosing_of_outermost {scope : ScopeId} (houter : graph.outer? scope = none) :
    graph.enclosing scope = [scope] := by
  unfold enclosing
  cases scope.index with
  | zero => rfl
  | succ steps => rw [climb, houter]

theorem Forest.enclosing_of_outer {scope outer : ScopeId}
    (houter : graph.outer? scope = some outer) :
    graph.enclosing scope = scope :: graph.enclosing outer := by
  have hlt := hforest.outer_older hgrounded houter
  obtain ⟨steps, hsteps⟩ : ∃ steps, scope.index = steps + 1 :=
    Nat.exists_eq_succ_of_ne_zero (by omega)
  have hclimb : graph.climb steps outer = graph.enclosing outer :=
    hforest.climb_eq_enclosing hgrounded (by omega)
  rw [enclosing, hsteps, climb, houter]
  exact congrArg (scope :: ·) hclimb

end Chain

/-! ## The first scope that offers something -/

section FirstOffer

variable {graph : ScopeGraph} {offer : ScopeId → List Signature} {start : ScopeId}

theorem firstOffer_of_offers (hoffers : offer start ≠ []) :
    graph.firstOffer offer start = some (start, offer start) := by
  obtain ⟨rest, hrest⟩ : ∃ rest, graph.enclosing start = start :: rest := by
    unfold enclosing
    cases start.index with
    | zero => exact ⟨[], rfl⟩
    | succ steps =>
        rw [climb]
        split
        · exact ⟨[], rfl⟩
        · exact ⟨_, rfl⟩
  obtain ⟨first, others, hset⟩ := List.exists_cons_of_ne_nil hoffers
  rw [firstOffer, hrest, List.findSome?_cons, hset]

theorem firstOffer_of_outermost (hnothing : offer start = [])
    (houter : graph.outer? start = none) : graph.firstOffer offer start = none := by
  rw [firstOffer, enclosing_of_outermost houter, List.findSome?_cons, hnothing]
  rfl

variable (hbuilt : graph.Built)
include hbuilt

/-- A scope that offers nothing passes the question on to the scope that contains it. -/
theorem firstOffer_of_outer {outer : ScopeId} (hnothing : offer start = [])
    (houter : graph.outer? start = some outer) :
    graph.firstOffer offer start = graph.firstOffer offer outer := by
  rw [firstOffer, hbuilt.forest.enclosing_of_outer hbuilt.grounded houter, List.findSome?_cons,
    hnothing, firstOffer]

theorem firstOffer_eq_some_iff {scope : ScopeId} {set : List Signature} :
    graph.firstOffer offer start = some (scope, set) ↔
      graph.ComesTo (fun other => offer other ≠ []) start scope ∧ offer scope ≠ [] ∧
        set = offer scope := by
  constructor
  · intro hfound
    induction hindex : start.index using Nat.strong_induction_on generalizing start with
    | _ index ih =>
        by_cases hnothing : offer start = []
        · cases houter : graph.outer? start with
          | none =>
              rw [firstOffer_of_outermost hnothing houter] at hfound
              cases hfound
          | some outer =>
              rw [firstOffer_of_outer hbuilt hnothing houter] at hfound
              have holder := hbuilt.forest.outer_older hbuilt.grounded houter
              obtain ⟨hcomes, hoffers⟩ := ih outer.index (hindex ▸ holder) hfound rfl
              exact ⟨.outwards (not_not_intro hnothing) houter hcomes, hoffers⟩
        · rw [firstOffer_of_offers hnothing] at hfound
          cases hfound
          exact ⟨.here _, hnothing, rfl⟩
  · rintro ⟨hcomes, hoffers, rfl⟩
    induction hcomes with
    | here scope => exact firstOffer_of_offers hoffers
    | outwards hpasses houter _ ih =>
        rw [firstOffer_of_outer hbuilt (not_not.mp hpasses) houter]
        exact ih hoffers

theorem firstOffer_eq_none_iff :
    graph.firstOffer offer start = none ↔ ∀ scope, graph.LiesIn start scope → offer scope = [] := by
  constructor
  · intro hnone scope hlies
    induction hlies using Relation.ReflTransGen.head_induction_on with
    | refl =>
        by_contra hoffers
        rw [firstOffer_of_offers hoffers] at hnone
        cases hnone
    | @head inner outer houter _ ih =>
        by_cases hnothing : offer inner = []
        · rw [firstOffer_of_outer hbuilt hnothing houter] at hnone
          exact ih hnone
        · rw [firstOffer_of_offers hnothing] at hnone
          cases hnone
  · intro hnothing
    rw [Option.eq_none_iff_forall_ne_some]
    rintro ⟨scope, set⟩ hfound
    obtain ⟨hcomes, hoffers, _⟩ := (firstOffer_eq_some_iff hbuilt).mp hfound
    exact hoffers (hnothing scope hcomes.liesIn)

end FirstOffer

/-! ## Look-ups -/

/-- Pull-ins and bases lead from the scope to one that declares the name. -/
def Knows (graph : ScopeGraph) (name : String) (scope : ScopeId) : Prop :=
  ∃ lower, graph.Reaches name scope lower ∧ graph.declaredAs lower name ≠ []

theorem offered_ne_nil_iff {graph : ScopeGraph} (hbuilt : graph.Built) (name : String)
    (scope : ScopeId) : graph.offered name scope ≠ [] ↔ graph.Knows name scope := by
  rw [Ne, offered_eq_nil_iff hbuilt.grounded hbuilt.hierarchy]
  push Not
  constructor
  · rintro ⟨signature, lower, hreach, hdeclared⟩
    exact ⟨lower, hreach, List.ne_nil_of_mem hdeclared⟩
  · rintro ⟨lower, hreach, hdeclares⟩
    obtain ⟨signature, hdeclared⟩ := List.exists_mem_of_ne_nil _ hdeclares
    exact ⟨signature, lower, hreach, hdeclared⟩

/-- A look-up stops at a scope exactly if it is the first one outwards from which a
declaration of the name can be reached, and finds nothing exactly if there is none.  What
it finds is not empty, has no fingerprint twice, and can be reached from where it stops. -/
theorem lookup_stops_at_first_knowing {graph : ScopeGraph} (hbuilt : graph.Built)
    (name : String) (start : ScopeId) :
    (∀ scope, (∃ set, graph.lookup name start = some (scope, set)) ↔
      graph.ComesTo (graph.Knows name) start scope ∧ graph.Knows name scope) ∧
    (graph.lookup name start = none ↔
      ∀ scope, graph.LiesIn start scope → ¬ graph.Knows name scope) ∧
    ∀ scope set, graph.lookup name start = some (scope, set) →
      set ≠ [] ∧ (set.map (·.fingerprint)).Nodup ∧
        ∀ signature ∈ set, ∃ lower, graph.Reaches name scope lower ∧
          signature ∈ graph.declaredAs lower name := by
  have hknows := offered_ne_nil_iff hbuilt name
  refine ⟨fun scope => ⟨?_, ?_⟩, ?_, ?_⟩
  · rintro ⟨set, hfound⟩
    obtain ⟨hcomes, hoffers, _⟩ := (firstOffer_eq_some_iff hbuilt).mp hfound
    exact ⟨hcomes.congr hknows, (hknows scope).mp hoffers⟩
  · rintro ⟨hcomes, hscope⟩
    exact ⟨graph.offered name scope, (firstOffer_eq_some_iff hbuilt).mpr
      ⟨hcomes.congr fun other => (hknows other).symm, (hknows scope).mpr hscope, rfl⟩⟩
  · rw [lookup, firstOffer_eq_none_iff hbuilt]
    simp only [← hknows, not_not]
  · intro scope set hfound
    obtain ⟨_, hoffers, rfl⟩ := (firstOffer_eq_some_iff hbuilt).mp hfound
    exact ⟨hoffers, (hbuilt.storedOnce.reports_visit name graph.walkBound scope []).nodup,
      graph.withinReach_of_mem_visit name graph.walkBound scope []⟩

/-- Two namespaces that pull `f` and `g` in from each other, with a block in the first.  The
second also pulls `f` in from a class whose base declares it. -/
def circlingPulls : ScopeGraph :=
  Command.runAll
    [.enterSpace ScopeId.root "Near", .enterSpace ScopeId.root "Far", .newBlock ⟨1⟩,
      .newClass ScopeId.root "Base" [], .newClass ScopeId.root "Derived" [.ofName "Base"],
      .newMethod (.ofName "Base") "f" false [],
      .pullIn ⟨1⟩ "f" ⟨2⟩, .pullIn ⟨2⟩ "f" ⟨1⟩, .pullIn ⟨2⟩ "f" ⟨5⟩,
      .pullIn ⟨1⟩ "g" ⟨2⟩, .pullIn ⟨2⟩ "g" ⟨1⟩] empty

/-- From the block, `f` is found in the namespace around it although the pull-ins run in a
circle first; `g` is nowhere. -/
theorem circlingPulls_stops_at_namespace :
    circlingPulls.Built ∧
      (circlingPulls.lookup "f" ⟨3⟩).map (fun found => (found.1, found.2.map (·.origin))) =
        some (⟨1⟩, [⟨4⟩]) ∧
      circlingPulls.ComesTo (circlingPulls.Knows "f") ⟨3⟩ ⟨1⟩ ∧
      circlingPulls.Knows "f" ⟨1⟩ ∧
      circlingPulls.Reaches "g" ⟨1⟩ ⟨2⟩ ∧ circlingPulls.Reaches "g" ⟨2⟩ ⟨1⟩ ∧
      ∀ scope, circlingPulls.LiesIn ⟨3⟩ scope → ¬ circlingPulls.Knows "g" scope := by
  have hbuilt : circlingPulls.Built := ⟨_, Or.inl rfl⟩
  have hfound : (circlingPulls.lookup "f" ⟨3⟩).map
      (fun found => (found.1, found.2.map (·.origin))) = some (⟨1⟩, [⟨4⟩]) := by
    decide +kernel
  have hstops : ∃ set, circlingPulls.lookup "f" ⟨3⟩ = some (⟨1⟩, set) := by
    obtain ⟨⟨scope, set⟩, hlookup, hparts⟩ := Option.map_eq_some_iff.mp hfound
    obtain ⟨rfl, _⟩ := Prod.mk.inj hparts
    exact ⟨set, hlookup⟩
  obtain ⟨hcomes, hknows⟩ :=
    ((lookup_stops_at_first_knowing hbuilt "f" ⟨3⟩).1 ⟨1⟩).mp hstops
  have hnowhere := (lookup_stops_at_first_knowing hbuilt "g" ⟨3⟩).2.1.mp (by decide +kernel)
  exact ⟨hbuilt, hfound, hcomes, hknows, .single (Or.inl (by decide +kernel)),
    .single (Or.inl (by decide +kernel)), hnowhere⟩

end ScopeGraph
end CallResolution
