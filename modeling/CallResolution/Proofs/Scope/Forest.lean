import Mathlib.Tactic
import CallResolution.Proofs.Scope.Growth

/-!
# Scopes form a tree

In a graph built by commands nothing contains the root, and every other scope is contained
exactly once, in a scope that was made before it.  So climbing from a scope visits older
and older scopes.

Names play no part: a scope contained under the empty name is contained all the same, and
two children may have one name.
-/

namespace CallResolution

/-- The edge says that a scope contains another. -/
def Edge.isContainment (edge : Edge) : Bool :=
  match edge.label with
  | .contains _ => true
  | _ => false

namespace ScopeGraph

/-- The edges that say that a scope is contained in another. -/
def containers (graph : ScopeGraph) (scope : ScopeId) : List Edge :=
  graph.edges.filter fun edge => edge.isContainment && edge.target = scope

/-- Every scope but the root is contained once, in an older scope. -/
structure Forest (graph : ScopeGraph) : Prop where
  root_outermost : graph.containers ScopeId.root = []
  contained_once : ∀ scope, graph.holds scope = true → scope ≠ ScopeId.root →
    ∃ edge, graph.containers scope = [edge] ∧ edge.source.index < scope.index

/-! ## One change -/

section Change

variable {graph grown : ScopeGraph} {links : List Edge}

theorem containers_eq_nil_of_no_containment
    (hlinks : ∀ edge ∈ links, edge.isContainment = false) (scope : ScopeId) :
    links.filter (fun edge => edge.isContainment && edge.target = scope) = [] := by
  rw [List.filter_eq_nil_iff]
  intro edge hedge
  simp [hlinks edge hedge]

/-- Edges of inheritance and pull-ins do not contain anything. -/
theorem containers_of_links (hedges : grown.edges = links ++ graph.edges)
    (hlinks : ∀ edge ∈ links, edge.isContainment = false) (scope : ScopeId) :
    grown.containers scope = graph.containers scope := by
  rw [containers, hedges, List.filter_append,
    containers_eq_nil_of_no_containment hlinks, List.nil_append, containers]

/-- A scope that does not exist yet is not contained in anything. -/
theorem Grounded.containers_new (hgrounded : graph.Grounded) :
    graph.containers ⟨graph.size⟩ = [] := by
  rw [containers, List.filter_eq_nil_iff]
  intro edge hedge hcontained
  have htarget : edge.target = ⟨graph.size⟩ := by
    simpa using (Bool.and_eq_true_iff.mp hcontained).2
  have hheld := (graph.holds_iff _).mp (hgrounded.edge_held edge hedge).2
  rw [htarget] at hheld
  exact Nat.lt_irrefl _ hheld

/-- A new child is contained in its parent, and nothing else changes. -/
theorem Grounded.containers_of_child (hgrounded : graph.Grounded) {parent : ScopeId}
    {name : String}
    (hedges : grown.edges = links ++ ⟨parent, ⟨graph.size⟩, .contains name⟩ :: graph.edges)
    (hlinks : ∀ edge ∈ links, edge.isContainment = false) (scope : ScopeId) :
    grown.containers scope =
      if scope = ⟨graph.size⟩ then [⟨parent, ⟨graph.size⟩, .contains name⟩]
      else graph.containers scope := by
  rw [containers, hedges, List.filter_append,
    containers_eq_nil_of_no_containment hlinks, List.nil_append]
  by_cases hnew : scope = ⟨graph.size⟩
  · subst hnew
    rw [List.filter_cons_of_pos (by simp [Edge.isContainment]), if_pos rfl]
    exact congrArg _ hgrounded.containers_new
  · rw [List.filter_cons_of_neg (by simpa [Edge.isContainment] using Ne.symm hnew), if_neg hnew,
      containers]

variable {kind : ScopeKind}

/-- A tree with one more leaf is a tree. -/
theorem Forest.of_child (hforest : graph.Forest) (hgrounded : graph.Grounded) {parent : ScopeId}
    {name : String} (hparent : graph.holds parent = true)
    (hscopes : grown.scopes = graph.scopes ++ [Scope.ofKind kind])
    (hedges : grown.edges = links ++ ⟨parent, ⟨graph.size⟩, .contains name⟩ :: graph.edges)
    (hlinks : ∀ edge ∈ links, edge.isContainment = false) : grown.Forest where
  root_outermost := by
    have hold : ScopeId.root ≠ ⟨graph.size⟩ := by
      intro hroot
      exact Nat.ne_of_lt hgrounded.size_pos (congrArg ScopeId.index hroot)
    rw [hgrounded.containers_of_child hedges hlinks, if_neg hold]
    exact hforest.root_outermost
  contained_once scope hheld hroot := by
    rw [hgrounded.containers_of_child hedges hlinks]
    by_cases hnew : scope = ⟨graph.size⟩
    · subst hnew
      exact ⟨_, if_pos rfl, (graph.holds_iff parent).mp hparent⟩
    · rw [if_neg hnew]
      have hsize : grown.size = graph.size + 1 := by simp [size, hscopes]
      have hlt := (grown.holds_iff scope).mp hheld
      have hne : scope.index ≠ graph.size := fun hindex => hnew (ScopeId.ext hindex)
      exact hforest.contained_once scope ((graph.holds_iff scope).mpr (by omega)) hroot

/-- Changes that make no scope keep the tree. -/
theorem Forest.of_links (hforest : graph.Forest) (links : List Edge)
    (hsize : grown.size = graph.size) (hedges : grown.edges = links ++ graph.edges)
    (hlinks : ∀ edge ∈ links, edge.isContainment = false) : grown.Forest where
  root_outermost := by
    rw [containers_of_links hedges hlinks]
    exact hforest.root_outermost
  contained_once scope hheld hroot := by
    rw [holds_iff, hsize, ← holds_iff] at hheld
    rw [containers_of_links hedges hlinks]
    exact hforest.contained_once scope hheld hroot

theorem Forest.extend {accepts : Signature → Prop} (hforest : graph.Forest)
    (hgrounded : graph.Grounded) (hextension : Extension accepts graph grown) :
    grown.Forest := by
  cases hextension with
  | space parent _ hparent | block parent hparent =>
      exact hforest.of_child hgrounded hparent rfl (List.nil_append _).symm (by simp)
  | classType scope name bases bodies hscope =>
      refine hforest.of_child hgrounded hscope (scopes_withClass ..) (edges_withClass ..) ?_
      intro edge hedge
      obtain ⟨body, _, rfl⟩ := List.mem_map.mp (List.mem_reverse.mp hedge)
      rfl
  | pull scope name source =>
      refine hforest.of_links [⟨scope, source, .pullsIn name⟩] rfl rfl ?_
      simp [Edge.isContainment]
  | plainType => exact hforest.of_links [] rfl rfl (by simp)
  | signature => exact hforest.of_links [] (by simp) (by simp) (by simp)

end Change

theorem forest_of_root_alone {graph : ScopeGraph} (hsize : graph.size = 1)
    (hedges : graph.edges = []) : graph.Forest where
  root_outermost := by simp [containers, hedges]
  contained_once scope hheld hroot := by
    rw [holds_iff, hsize, Nat.lt_one_iff] at hheld
    exact absurd (ScopeId.ext hheld) hroot

theorem Built.forest {graph : ScopeGraph} (hbuilt : graph.Built) : graph.Forest :=
  hbuilt.induct (forest_of_root_alone rfl rfl) (forest_of_root_alone rfl rfl)
    fun _ _ hgrounded hextension hforest => hforest.extend hgrounded hextension

/-! ## Climbing -/

/-- The outer scope is read off the newest edge that contains the scope. -/
theorem outer?_eq_head? (graph : ScopeGraph) (scope : ScopeId) :
    graph.outer? scope = (graph.containers scope).head?.map (·.source) := by
  unfold outer? containers
  induction graph.edges with
  | nil => rfl
  | cons edge rest ih =>
      obtain ⟨source, target, label⟩ := edge
      rw [List.findSome?_cons, List.filter_cons, ih]
      cases label with
      | contains name => by_cases htarget : target = scope <;> simp [Edge.isContainment, htarget]
      | inherits => simp [Edge.isContainment]
      | pullsIn name => simp [Edge.isContainment]

section Container

variable {graph : ScopeGraph} (hforest : graph.Forest) (hgrounded : graph.Grounded)
  {scope : ScopeId}
include hforest hgrounded

/-- An edge that contains a scope is the only one, and it leaves an older scope. -/
theorem Forest.containers_of_mem {edge : Edge} (hedge : edge ∈ graph.containers scope) :
    graph.containers scope = [edge] ∧ edge.source.index < scope.index := by
  have hheld : graph.holds scope = true := by
    obtain ⟨hmem, hcontained⟩ := List.mem_filter.mp hedge
    have htarget : edge.target = scope := by
      simpa using (Bool.and_eq_true_iff.mp hcontained).2
    exact htarget ▸ (hgrounded.edge_held edge hmem).2
  have hroot : scope ≠ ScopeId.root := by
    rintro rfl
    rw [hforest.root_outermost] at hedge
    cases hedge
  obtain ⟨only, honly, holder⟩ := hforest.contained_once scope hheld hroot
  rw [honly, List.mem_singleton] at hedge
  exact ⟨hedge ▸ honly, hedge ▸ holder⟩

/-- The outer scope of a scope is older. -/
theorem Forest.outer_older {outer : ScopeId} (houter : graph.outer? scope = some outer) :
    outer.index < scope.index := by
  rw [outer?_eq_head?] at houter
  obtain ⟨edge, hhead, rfl⟩ := Option.map_eq_some_iff.mp houter
  exact (hforest.containers_of_mem hgrounded (List.mem_of_mem_head? hhead)).2

end Container

end ScopeGraph
end CallResolution
