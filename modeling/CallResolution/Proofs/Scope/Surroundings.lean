import Mathlib.Tactic
import CallResolution.Proofs.Scope.Effects

/-!
# What surrounds a scope

The outer scope of a scope, its name, its path and its namespace are all read off the
edges that contain scopes.  New edges are found before old ones, so a graph that grows
could give other answers about an old scope.  It does not if none of the new edges
contains a scope that was there before and the scopes keep their kinds: `ScopesKept`.

This is what makes it safe to insert the type of a class after its scope: the qualified
name, which was free before the scope was made, is the same and still free.

Nothing is said about the children of an old scope.  A new child may take the place of an
old one of the same name.
-/

namespace CallResolution
namespace ScopeGraph

/-- The scopes of a graph keep their kinds, and none of the new edges contains them. -/
structure ScopesKept (graph grown : ScopeGraph) : Prop where
  kind_eq : ∀ scope, graph.holds scope = true → grown.kind? scope = graph.kind? scope
  edges : ∃ links, grown.edges = links ++ graph.edges ∧
    ∀ edge ∈ links, ∀ name, edge.label = .contains name → graph.holds edge.target = false

theorem isSome_kind? (graph : ScopeGraph) (scope : ScopeId) :
    (graph.kind? scope).isSome = graph.holds scope := by
  rw [Bool.eq_iff_iff]
  simp [kind?, contents?, holds]

theorem ScopesKept.refl (graph : ScopeGraph) : ScopesKept graph graph where
  kind_eq _ _ := rfl
  edges := ⟨[], rfl, by simp⟩

theorem ScopesKept.holds_of_holds {graph grown : ScopeGraph} (hkept : ScopesKept graph grown)
    {scope : ScopeId} (hheld : graph.holds scope = true) : grown.holds scope = true := by
  rw [← isSome_kind?, hkept.kind_eq scope hheld, isSome_kind?]
  exact hheld

theorem ScopesKept.trans {graph middle grown : ScopeGraph} (hfirst : ScopesKept graph middle)
    (hsecond : ScopesKept middle grown) : ScopesKept graph grown where
  kind_eq scope hheld := by
    rw [hsecond.kind_eq scope (hfirst.holds_of_holds hheld), hfirst.kind_eq scope hheld]
  edges := by
    obtain ⟨older, hmiddle, holder⟩ := hfirst.edges
    obtain ⟨newer, hgrown, hnewer⟩ := hsecond.edges
    refine ⟨newer ++ older, by rw [hgrown, hmiddle, List.append_assoc], ?_⟩
    intro edge hedge name hlabel
    rcases List.mem_append.mp hedge with hedge | hedge
    · -- What the middle graph does not hold, the first one does not hold either.
      rw [← Bool.not_eq_true]
      intro hheld
      have hunheld := hnewer edge hedge name hlabel
      rw [hfirst.holds_of_holds hheld] at hunheld
      cases hunheld
    · exact holder edge hedge name hlabel

/-- A new scope and edges that contain only this scope keep the others. -/
theorem scopesKept_of_child {graph grown : ScopeGraph} {kind : ScopeKind} (links : List Edge)
    (hscopes : grown.scopes = graph.scopes ++ [Scope.ofKind kind])
    (hedges : grown.edges = links ++ graph.edges)
    (hlinks : ∀ edge ∈ links, ∀ name, edge.label = .contains name →
      edge.target = ⟨graph.size⟩) : ScopesKept graph grown where
  kind_eq scope hheld := by
    have hindex : scope.index < graph.scopes.length := by simpa [holds] using hheld
    rw [kind?, contents?, hscopes, List.getElem?_append_left hindex]
    rfl
  edges := by
    refine ⟨links, hedges, ?_⟩
    intro edge hedge name hlabel
    rw [hlinks edge hedge name hlabel]
    simp [holds, size]

/-! ## Reading edges -/

section Read

variable {graph grown : ScopeGraph} (hkept : ScopesKept graph grown) {scope : ScopeId}
  (hheld : graph.holds scope = true)
include hkept hheld

/-- A question that only edges containing the scope answer is answered by an old edge. -/
theorem ScopesKept.findSome?_eq {α : Type} {read : Edge → Option α}
    (hread : ∀ edge a, read edge = some a →
      edge.target = scope ∧ ∃ name, edge.label = .contains name) :
    grown.edges.findSome? read = graph.edges.findSome? read := by
  obtain ⟨links, hedges, hlinks⟩ := hkept.edges
  have hnothing : links.findSome? read = none := by
    rw [List.findSome?_eq_none_iff]
    intro edge hedge
    rw [Option.eq_none_iff_forall_ne_some]
    intro a hfound
    obtain ⟨rfl, name, hlabel⟩ := hread edge a hfound
    rw [hlinks edge hedge name hlabel] at hheld
    cases hheld
  rw [hedges, List.findSome?_append, hnothing, Option.none_or]

theorem ScopesKept.outer?_eq : grown.outer? scope = graph.outer? scope := by
  apply hkept.findSome?_eq hheld
  intro edge outer hfound
  cases hlabel : edge.label with
  | contains name =>
      simp only [hlabel, Option.ite_none_right_eq_some] at hfound
      exact ⟨hfound.1, name, rfl⟩
  | inherits => simp [hlabel] at hfound
  | pullsIn name => simp [hlabel] at hfound

theorem ScopesKept.ownName?_eq : grown.ownName? scope = graph.ownName? scope := by
  apply hkept.findSome?_eq hheld
  intro edge found hfound
  cases hlabel : edge.label with
  | contains name =>
      simp only [hlabel, Option.ite_none_right_eq_some] at hfound
      exact ⟨hfound.1.1, name, rfl⟩
  | inherits => simp [hlabel] at hfound
  | pullsIn name => simp [hlabel] at hfound

end Read

/-- The outer scope is a source of an edge. -/
theorem holds_of_outer? {graph : ScopeGraph}
    (hsources : ∀ edge ∈ graph.edges, graph.holds edge.source = true) {scope outer : ScopeId}
    (houter : graph.outer? scope = some outer) : graph.holds outer = true := by
  obtain ⟨edge, hedge, hfound⟩ := List.exists_of_findSome?_eq_some houter
  cases hlabel : edge.label with
  | contains name =>
      simp only [hlabel, Option.ite_none_right_eq_some, Option.some.injEq] at hfound
      exact hfound.2 ▸ hsources edge hedge
  | inherits => simp [hlabel] at hfound
  | pullsIn name => simp [hlabel] at hfound

/-- A climb stays among the scopes of the graph. -/
theorem holds_of_mem_climb {graph : ScopeGraph}
    (hsources : ∀ edge ∈ graph.edges, graph.holds edge.source = true) {steps : Nat}
    {scope other : ScopeId} (hheld : graph.holds scope = true)
    (hother : other ∈ graph.climb steps scope) : graph.holds other = true := by
  induction steps generalizing scope with
  | zero => exact List.mem_singleton.mp hother ▸ hheld
  | succ steps ih =>
      rw [climb] at hother
      cases houter : graph.outer? scope with
      | none =>
          rw [houter] at hother
          exact List.mem_singleton.mp hother ▸ hheld
      | some outer =>
          rw [houter] at hother
          rcases List.mem_cons.mp hother with rfl | hother
          · exact hheld
          · exact ih (holds_of_outer? hsources houter) hother

/-! ## Climbing -/

section Climb

variable {graph grown : ScopeGraph} (hkept : ScopesKept graph grown)
  (hsources : ∀ edge ∈ graph.edges, graph.holds edge.source = true) {scope : ScopeId}
  (hheld : graph.holds scope = true)
include hkept hsources hheld

theorem ScopesKept.climb_eq (steps : Nat) : grown.climb steps scope = graph.climb steps scope := by
  induction steps generalizing scope with
  | zero => rfl
  | succ steps ih =>
      rw [climb, climb, hkept.outer?_eq hheld]
      cases houter : graph.outer? scope with
      | none => rfl
      | some outer =>
          show scope :: grown.climb steps outer = scope :: graph.climb steps outer
          rw [ih (holds_of_outer? hsources houter)]

theorem ScopesKept.pathNames_eq : grown.pathNames scope = graph.pathNames scope := by
  have hclimb : grown.enclosing scope = graph.enclosing scope :=
    hkept.climb_eq hsources hheld scope.index
  rw [pathNames, pathNames, hclimb]
  congr 1
  apply List.filterMap_congr
  intro outer houter
  exact hkept.ownName?_eq (holds_of_mem_climb hsources hheld houter)

theorem ScopesKept.innermostSpace_eq : grown.innermostSpace scope = graph.innermostSpace scope := by
  have hclimb : grown.enclosing scope = graph.enclosing scope :=
    hkept.climb_eq hsources hheld scope.index
  have hfind : (graph.enclosing scope).find? (fun outer => grown.kind? outer = some .space) =
      (graph.enclosing scope).find? (fun outer => graph.kind? outer = some .space) := by
    apply List.find?_congr
    intro outer houter
    rw [hkept.kind_eq outer (holds_of_mem_climb hsources hheld houter)]
  rw [innermostSpace, innermostSpace, hclimb, hfind]
  rfl

theorem ScopesKept.qualify_eq (name : String) : grown.qualify scope name = graph.qualify scope name := by
  rw [qualify, qualify, hkept.pathNames_eq hsources hheld]

/-- A type that is registered in an old scope has the record that it would have had before. -/
theorem ScopesKept.recordIn_eq (name : String) (body : Option ScopeId)
    (bases : List Fingerprint) :
    grown.recordIn scope name body bases = graph.recordIn scope name body bases := by
  simp only [recordIn, typeIn, hkept.qualify_eq hsources hheld,
    hkept.innermostSpace_eq hsources hheld]

end Climb

theorem scopesKept_withClassScope (graph : ScopeGraph) (scope : ScopeId) (name : String)
    (bodies : List ScopeId) : ScopesKept graph (graph.withClassScope scope name bodies) := by
  refine scopesKept_of_child ((bodies.map fun body =>
    (⟨⟨graph.size⟩, body, .inherits⟩ : Edge)).reverse ++ [⟨scope, ⟨graph.size⟩, .contains name⟩])
    (scopes_withClassScope ..) ?_ ?_
  · rw [edges_withClassScope, List.append_assoc, List.singleton_append]
  · intro edge hedge label hlabel
    rcases List.mem_append.mp hedge with hedge | hedge
    · obtain ⟨body, _, rfl⟩ := List.mem_map.mp (List.mem_reverse.mp hedge)
      cases hlabel
    · rw [List.mem_singleton.mp hedge]

end ScopeGraph

namespace Registration

open ScopeGraph

/-- Making the scope of a class does not take its name away: if the name was free before,
the type is inserted. -/
theorem perform_insertType_classScope {graph : ScopeGraph}
    (hsources : ∀ edge ∈ graph.edges, graph.holds edge.source = true) {scope : ScopeId}
    (hscope : graph.holds scope = true) {name : String}
    (hfresh : graph.registered? (graph.typeIn scope name) = none) (bases : List Fingerprint)
    (bodies : List ScopeId) :
    (insertType scope name (some ⟨graph.size⟩) bases).perform
        (graph.withClassScope scope name bodies) =
      (.ok (graph.typeIn scope name), graph.withClass scope name bases bodies) := by
  have hkept := scopesKept_withClassScope graph scope name bodies
  have htype : (graph.withClassScope scope name bodies).typeIn scope name =
      graph.typeIn scope name := by
    rw [typeIn, hkept.qualify_eq hsources hscope, typeIn]
  have hfree : (graph.withClassScope scope name bodies).registered? (graph.typeIn scope name) =
      none := by
    rw [registered?, types_withClassScope]
    exact hfresh
  rw [perform_insertType, htype, hfree, hkept.recordIn_eq hsources hscope, withClass_eq_addType]
  rfl

end Registration
end CallResolution
