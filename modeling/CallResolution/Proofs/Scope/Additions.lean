import Mathlib.Data.List.Nodup
import Mathlib.Data.List.Perm.Basic
import Mathlib.Tactic
import CallResolution.Proofs.Scope.Rearrangement

/-!
# Adding declarations and pull-ins

Steps that declare a signature or pull functions in add to a graph and change nothing
that such a step checks, except which fingerprints are taken.  So a sequence of them
succeeds exactly if every step fits the graph at the start and the fingerprints are new
and differ, whatever the order; and the graphs that two orders lead to are rearrangements
of one another.
-/

namespace CallResolution

/-- A step that adds to the scopes there are. -/
inductive Addition where
  | declare (declaration : Declaration)
  | pullIn (scope : ScopeId) (name : String) (source : ScopeId)
  deriving DecidableEq, Repr

namespace Addition

open ScopeGraph

/-- The step as a building command. -/
def command : Addition → Command
  | .declare declaration => .declare declaration
  | .pullIn scope name source => .pullIn scope name source

/-- Everything that the step checks, apart from the fingerprint. -/
def Fits (graph : ScopeGraph) : Addition → Prop
  | .declare declaration =>
      declaration.signature.check = .ok () ∧
        graph.holds declaration.signature.origin = true ∧
          graph.FitsMember declaration.signature ∧
            ∀ other ∈ declaration.elsewhere, graph.holds other = true
  | .pullIn scope _ source => graph.holds scope = true ∧ graph.holds source = true

/-- The fingerprint that the step takes. -/
def fingerprint? : Addition → Option Fingerprint
  | .declare declaration => some declaration.signature.fingerprint
  | .pullIn _ _ _ => none

/-- The graph after the step, if it succeeds. -/
def apply (graph : ScopeGraph) : Addition → ScopeGraph
  | .declare declaration => graph.withSignature declaration.signature declaration.elsewhere
  | .pullIn scope name source => graph.withPullIn scope name source

/-- The step succeeds. -/
def Succeeds (step : Addition) (graph : ScopeGraph) : Prop :=
  ∃ receipt, (step.command.run graph).1 = .ok receipt

/-- The steps succeed, each on the graph that those before it leave. -/
def AllSucceed : List Addition → ScopeGraph → Prop
  | [], _ => True
  | step :: rest, graph => step.Succeeds graph ∧ AllSucceed rest (step.command.run graph).2

instance (step : Addition) (graph : ScopeGraph) : Decidable (step.Succeeds graph) :=
  match hanswer : (step.command.run graph).1 with
  | .ok receipt => isTrue ⟨receipt, hanswer⟩
  | .error _ => isFalse fun ⟨_, hreceipt⟩ => nomatch hanswer.symm.trans hreceipt

instance AllSucceed.decidable : (steps : List Addition) → (graph : ScopeGraph) →
    Decidable (AllSucceed steps graph)
  | [], _ => isTrue trivial
  | step :: rest, graph =>
      have := AllSucceed.decidable rest (step.command.run graph).2
      inferInstanceAs (Decidable (step.Succeeds graph ∧ AllSucceed rest (step.command.run graph).2))

/-! ## One step -/

theorem succeeds_declare_iff (declaration : Declaration) (graph : ScopeGraph) :
    (Addition.declare declaration).Succeeds graph ↔
      declaration.signature.check = .ok () ∧ declaration.refusal graph = none := by
  simp only [Succeeds, command, Command.run, Command.registration, Registration.perform_map,
    Registration.perform_declare]
  cases hcheck : declaration.signature.check with
  | error defect => simp [Except.map]
  | ok accepted =>
      simp only [Registration.perform_declareAsIs]
      cases declaration.refusal graph with
      | some error => simp [Except.map]
      | none => simp [Except.map]

theorem succeeds_iff (step : Addition) (graph : ScopeGraph) :
    step.Succeeds graph ↔
      step.Fits graph ∧ ∀ fingerprint ∈ step.fingerprint?, graph.isIndexed fingerprint = false := by
  cases step with
  | declare declaration =>
      rw [succeeds_declare_iff, declaration.refusal_eq_none_iff]
      simp only [Fits, fingerprint?, Option.mem_def, Option.some.injEq, forall_eq']
      tauto
  | pullIn scope name source =>
      simp only [Succeeds, command, Command.run, Command.registration, Registration.perform_map,
        Registration.perform_pullIn, Fits, fingerprint?]
      cases graph.holds scope <;> cases graph.holds source <;> simp [Except.map]

theorem run_of_succeeds {step : Addition} {graph : ScopeGraph}
    (hsucceeds : step.Succeeds graph) : (step.command.run graph).2 = step.apply graph := by
  cases step with
  | declare declaration =>
      obtain ⟨hcheck, hrefusal⟩ := (succeeds_declare_iff declaration graph).mp hsucceeds
      simp only [command, Command.run, Command.registration, Registration.perform_map,
        Registration.perform_declare, hcheck, Registration.perform_declareAsIs, hrefusal]
      rfl
  | pullIn scope name source =>
      obtain ⟨⟨hscope, hsource⟩, _⟩ := (succeeds_iff _ graph).mp hsucceeds
      simp [command, Command.run, Command.registration, Registration.perform_map,
        Registration.perform_pullIn, hscope, hsource, apply]

/-! ## What a step leaves alone -/

section Frame

variable (step : Addition) (graph : ScopeGraph)

theorem size_apply : (step.apply graph).size = graph.size := by
  cases step with
  | declare declaration => exact size_withSignature ..
  | pullIn scope name source =>
      rw [apply, withPullIn]
      split <;> rfl

theorem types_apply : (step.apply graph).types = graph.types := by
  cases step with
  | declare declaration => exact types_withSignature ..
  | pullIn scope name source =>
      rw [apply, withPullIn]
      split <;> rfl

theorem kind?_apply (scope : ScopeId) : (step.apply graph).kind? scope = graph.kind? scope := by
  cases step with
  | declare declaration => exact kind?_withSignature ..
  | pullIn receiver name source =>
      rw [apply, withPullIn]
      split <;> rfl

theorem holds_apply (scope : ScopeId) : (step.apply graph).holds scope = graph.holds scope := by
  rw [Bool.eq_iff_iff, holds_iff, holds_iff, size_apply]

theorem fits_apply_iff (other : Addition) : other.Fits (step.apply graph) ↔ other.Fits graph := by
  cases other with
  | declare declaration => simp only [Fits, FitsMember, holds_apply, kind?_apply]
  | pullIn scope name source => simp only [Fits, holds_apply]

theorem isIndexed_apply (fingerprint : Fingerprint) :
    (step.apply graph).isIndexed fingerprint = false ↔
      graph.isIndexed fingerprint = false ∧ step.fingerprint? ≠ some fingerprint := by
  cases step with
  | declare declaration =>
      simp [apply, isIndexed, fingerprint?, List.any_append]
  | pullIn scope name source =>
      have hindex : (graph.withPullIn scope name source).index = graph.index := by
        rw [withPullIn]
        split <;> rfl
      simp [apply, isIndexed, fingerprint?, hindex]

end Frame

/-! ## Sequences of steps -/

/-- The graph after all the steps, if they succeed. -/
def applyAll (graph : ScopeGraph) (steps : List Addition) : ScopeGraph :=
  steps.foldl apply graph

theorem runAll_of_allSucceed {steps : List Addition} {graph : ScopeGraph}
    (hsucceed : AllSucceed steps graph) :
    Command.runAll (steps.map command) graph = applyAll graph steps := by
  induction steps generalizing graph with
  | nil => rfl
  | cons step rest ih =>
      obtain ⟨hstep, hrest⟩ := hsucceed
      have htail := ih hrest
      rw [run_of_succeeds hstep] at htail
      rw [List.map_cons, Command.runAll, List.foldl_cons, run_of_succeeds hstep]
      exact htail

/-- Whether a sequence of steps succeeds does not depend on its order. -/
theorem allSucceed_iff (steps : List Addition) (graph : ScopeGraph) :
    AllSucceed steps graph ↔
      (∀ step ∈ steps, step.Fits graph) ∧ (steps.filterMap fingerprint?).Nodup ∧
        ∀ fingerprint ∈ steps.filterMap fingerprint?, graph.isIndexed fingerprint = false := by
  induction steps generalizing graph with
  | nil => simp [AllSucceed]
  | cons step rest ih =>
      -- The first step changes nothing that the others check, apart from its fingerprint.
      have hrest : step.Succeeds graph → (AllSucceed rest (step.command.run graph).2 ↔
          (∀ other ∈ rest, other.Fits graph) ∧ (rest.filterMap fingerprint?).Nodup ∧
            ∀ fingerprint ∈ rest.filterMap fingerprint?, graph.isIndexed fingerprint = false ∧
              step.fingerprint? ≠ some fingerprint) := by
        intro hstep
        rw [run_of_succeeds hstep, ih]
        simp only [fits_apply_iff, isIndexed_apply]
      rw [AllSucceed, and_congr_right hrest, succeeds_iff, List.forall_mem_cons,
        List.filterMap_cons]
      cases hfingerprint : step.fingerprint? with
      | none => simp [and_assoc]
      | some fingerprint =>
          simp only [Option.mem_def, Option.some.injEq, forall_eq', List.nodup_cons,
            List.forall_mem_cons, ne_eq]
          constructor
          · rintro ⟨⟨hfits, hfree⟩, hothers, hnodup, hnew⟩
            exact ⟨⟨hfits, hothers⟩, ⟨fun hmem => (hnew fingerprint hmem).2 rfl, hnodup⟩, hfree,
              fun other hother => (hnew other hother).1⟩
          · rintro ⟨⟨hfits, hothers⟩, ⟨habsent, hnodup⟩, hfree, hnew⟩
            refine ⟨⟨hfits, hfree⟩, hothers, hnodup, fun other hother => ⟨hnew other hother, ?_⟩⟩
            rintro rfl
            exact habsent hother

theorem AllSucceed.perm {steps others : List Addition} {graph : ScopeGraph}
    (hsucceed : AllSucceed steps graph) (hperm : steps.Perm others) :
    AllSucceed others graph := by
  rw [allSucceed_iff] at hsucceed ⊢
  obtain ⟨hfits, hnodup, hnew⟩ := hsucceed
  have hfingerprints := hperm.filterMap fingerprint?
  exact ⟨fun step hstep => hfits step (hperm.mem_iff.mpr hstep), hfingerprints.nodup_iff.mp hnodup,
    fun fingerprint hmem => hnew fingerprint (hfingerprints.mem_iff.mpr hmem)⟩

/-! ## What the steps leave behind -/

/-- The signature that the step declares in this scope. -/
def declaredIn (scope : ScopeId) : Addition → Option Signature
  | .declare declaration =>
      if scope = declaration.signature.origin then some declaration.signature else none
  | .pullIn _ _ _ => none

/-- The signature that the step copies into this scope. -/
def copiedTo (scope : ScopeId) : Addition → Option Signature
  | .declare declaration =>
      if declaration.elsewhere = some scope then some declaration.signature else none
  | .pullIn _ _ _ => none

/-- The edge that the step makes sure of. -/
def edge? : Addition → Option Edge
  | .declare _ => none
  | .pullIn scope name source => some ⟨scope, source, .pullsIn name⟩

/-- Contents with more declarations and copies at the end. -/
def extendScope (scope : ScopeId) (steps : List Addition) (contents : Scope) : Scope where
  kind := contents.kind
  declared := contents.declared ++ steps.filterMap (declaredIn scope)
  associated := contents.associated ++ steps.filterMap (copiedTo scope)

theorem extendScope_nil (scope : ScopeId) (contents : Scope) :
    extendScope scope [] contents = contents := by
  simp [extendScope]

theorem extendScope_cons (scope : ScopeId) (step : Addition) (rest : List Addition)
    (contents : Scope) :
    extendScope scope (step :: rest) contents =
      extendScope scope rest (extendScope scope [step] contents) := by
  cases hdeclared : step.declaredIn scope <;> cases hcopied : step.copiedTo scope <;>
    simp [extendScope, hdeclared, hcopied]

theorem contents?_apply (step : Addition) (graph : ScopeGraph) (scope : ScopeId) :
    (step.apply graph).contents? scope =
      (graph.contents? scope).map (extendScope scope [step]) := by
  cases step with
  | declare declaration =>
      rw [apply, contents?_withSignature]
      congr 1
      funext contents
      simp only [extendScope, List.filterMap_cons, declaredIn, copiedTo, List.filterMap_nil]
      split <;> split <;> simp
  | pullIn receiver name source =>
      have hsame : (graph.withPullIn receiver name source).contents? scope =
          graph.contents? scope := by
        rw [withPullIn]
        split <;> rfl
      have hextend : extendScope scope [.pullIn receiver name source] = id := by
        funext contents
        simp [extendScope, List.filterMap_cons, declaredIn, copiedTo]
      rw [apply, hsame, hextend, Option.map_id, id]

theorem contents?_applyAll (steps : List Addition) (graph : ScopeGraph) (scope : ScopeId) :
    (applyAll graph steps).contents? scope =
      (graph.contents? scope).map (extendScope scope steps) := by
  induction steps generalizing graph with
  | nil => simp [applyAll, funext (extendScope_nil scope)]
  | cons step rest ih =>
      have htail := ih (step.apply graph)
      rw [contents?_apply, Option.map_map] at htail
      rw [applyAll, List.foldl_cons]
      refine htail.trans ?_
      congr 1
      funext contents
      exact (extendScope_cons scope step rest contents).symm

theorem edges_apply_of_mem {step : Addition} {graph : ScopeGraph}
    (hknown : ∀ edge ∈ step.edge?, edge ∈ graph.edges) :
    (step.apply graph).edges = graph.edges := by
  cases step with
  | declare declaration => exact edges_withSignature ..
  | pullIn scope name source => simp [apply, withPullIn, hknown _ rfl]

theorem edges_apply_of_not_mem {step : Addition} {graph : ScopeGraph} {edge : Edge}
    (hedge : step.edge? = some edge) (hnew : edge ∉ graph.edges) :
    (step.apply graph).edges = edge :: graph.edges := by
  cases step with
  | declare declaration => cases hedge
  | pullIn scope name source =>
      obtain rfl := Option.some.inj hedge
      simp [apply, withPullIn, hnew, addEdge]

/-- The new edges, each once, are those that the steps speak of and that were missing. -/
theorem edges_applyAll (steps : List Addition) (graph : ScopeGraph) :
    ∃ new, (applyAll graph steps).edges = new ++ graph.edges ∧ new.Nodup ∧
      ∀ edge, edge ∈ new ↔ edge ∈ steps.filterMap edge? ∧ edge ∉ graph.edges := by
  induction steps generalizing graph with
  | nil => exact ⟨[], rfl, List.nodup_nil, by simp⟩
  | cons step rest ih =>
      obtain ⟨new, hedges, hnodup, hmem⟩ := ih (step.apply graph)
      have hedges : (applyAll graph (step :: rest)).edges = new ++ (step.apply graph).edges :=
        hedges
      by_cases hknown : ∀ edge ∈ step.edge?, edge ∈ graph.edges
      · -- The step adds no edge, and the later steps do not add this one either.
        rw [edges_apply_of_mem hknown] at hedges hmem
        refine ⟨new, hedges, hnodup, fun edge => ?_⟩
        rw [hmem, List.filterMap_cons]
        cases hedge : step.edge? with
        | none => rfl
        | some other =>
            have hother := hknown other hedge
            simp only [List.mem_cons]
            constructor
            · exact fun h => ⟨Or.inr h.1, h.2⟩
            · rintro ⟨rfl | hrest, hnew⟩
              · exact absurd hother hnew
              · exact ⟨hrest, hnew⟩
      · push Not at hknown
        obtain ⟨added, hadded, hnew⟩ := hknown
        -- The step adds its edge; from then on the edge is known and is not added again.
        rw [edges_apply_of_not_mem hadded hnew] at hedges hmem
        refine ⟨new ++ [added], by simpa using hedges, ?_, fun edge => ?_⟩
        · have habsent : added ∉ new := fun h => ((hmem added).mp h).2 List.mem_cons_self
          exact hnodup.append (List.nodup_singleton added) (by simpa using habsent)
        · rw [List.mem_append, List.mem_singleton, hmem, List.mem_cons, not_or,
            List.filterMap_cons_some hadded, List.mem_cons]
          constructor
          · rintro (⟨hrest, _, hmissing⟩ | rfl)
            · exact ⟨Or.inr hrest, hmissing⟩
            · exact ⟨Or.inl rfl, hnew⟩
          · rintro ⟨rfl | hrest, hmissing⟩
            · exact Or.inr rfl
            · by_cases hsame : edge = added
              · exact Or.inr hsame
              · exact Or.inl ⟨hrest, hsame, hmissing⟩

theorem size_applyAll (steps : List Addition) (graph : ScopeGraph) :
    (applyAll graph steps).size = graph.size := by
  induction steps generalizing graph with
  | nil => rfl
  | cons step rest ih => exact (ih (step.apply graph)).trans (step.size_apply graph)

theorem types_applyAll (steps : List Addition) (graph : ScopeGraph) :
    (applyAll graph steps).types = graph.types := by
  induction steps generalizing graph with
  | nil => rfl
  | cons step rest ih => exact (ih (step.apply graph)).trans (step.types_apply graph)

/-- Only pull-ins are added. -/
theorem filter_isLink_eq_nil {steps : List Addition} {new : List Edge}
    (hnew : ∀ edge ∈ new, edge ∈ steps.filterMap edge?) : new.filter Edge.isLink = [] := by
  rw [List.filter_eq_nil_iff]
  intro edge hedge
  obtain ⟨step, _, hstep⟩ := List.mem_filterMap.mp (hnew edge hedge)
  cases step with
  | declare declaration => cases hstep
  | pullIn scope name source =>
      obtain rfl := Option.some.inj hstep
      simp [Edge.isLink]

/-- Two orders of the same steps lead to the same graph up to order. -/
theorem rearranged_applyAll {steps others : List Addition} (hperm : steps.Perm others)
    (graph : ScopeGraph) : Rearranged (applyAll graph steps) (applyAll graph others) := by
  obtain ⟨new, hedges, hnodup, hmem⟩ := edges_applyAll steps graph
  obtain ⟨new', hedges', hnodup', hmem'⟩ := edges_applyAll others graph
  have hnew : new.Perm new' := by
    rw [List.perm_ext_iff_of_nodup hnodup hnodup']
    intro edge
    rw [hmem, hmem', (hperm.filterMap edge?).mem_iff]
  have hlinks := filter_isLink_eq_nil fun edge hedge => ((hmem edge).mp hedge).1
  have hlinks' := filter_isLink_eq_nil fun edge hedge => ((hmem' edge).mp hedge).1
  refine ⟨?_, ?_, ?_, ?_, ?_⟩
  · rw [size_applyAll, size_applyAll]
  · intro scope
    rw [contents?_applyAll, contents?_applyAll]
    cases graph.contents? scope with
    | none => exact .none
    | some contents =>
        refine .some ⟨rfl, ?_, ?_⟩
        · exact (hperm.filterMap _).append_left _
        · exact (hperm.filterMap _).append_left _
  · rw [hedges, hedges']
    exact hnew.append_right _
  · rw [hedges, hedges', List.filter_append, List.filter_append, hlinks, hlinks']
  · rw [types_applyAll, types_applyAll]

end Addition
end CallResolution
