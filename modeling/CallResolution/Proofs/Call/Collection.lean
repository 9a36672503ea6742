import Mathlib.Tactic
import CallResolution.Proofs.Call.Matching
import CallResolution.Proofs.Scope.Walk

/-!
# Candidates are stored signatures

Whatever look-up finds a candidate, its signature is stored in the graph.  So two
candidates with one fingerprint have one signature, and in a graph where every signature
passed the check of its form no candidate is malformed.
-/

namespace CallResolution
namespace ScopeGraph

variable {accepts : Signature → Prop} {graph : ScopeGraph} {signature : Signature}

/-- A look-up outwards returns what some scope offers. -/
theorem eq_offer_of_firstOffer {offer : ScopeId → List Signature} {start scope : ScopeId}
    {set : List Signature} (hfound : graph.firstOffer offer start = some (scope, set)) :
    set = offer scope := by
  obtain ⟨outer, _, hoffer⟩ := List.exists_of_findSome?_eq_some hfound
  cases hset : offer outer with
  | nil => simp [hset] at hoffer
  | cons first rest =>
      simp only [hset, Option.some.injEq, Prod.mk.injEq] at hoffer
      obtain ⟨rfl, rfl⟩ := hoffer
      exact hset.symm

/-! ## Where candidates come from -/

section Sources

variable {name : String} {scope : ScopeId} {operands : List Fingerprint}

theorem exists_offered_of_memberCandidates
    (hmem : signature ∈ graph.memberCandidates name operands) :
    ∃ body, signature ∈ graph.offered name body := by
  cases operands with
  | nil => cases hmem
  | cons left rest =>
      have hclass := (List.mem_filter.mp hmem).1
      unfold lookupInClass at hclass
      cases hbody : graph.body? left with
      | none => simp [hbody] at hclass
      | some body =>
          rw [hbody] at hclass
          exact ⟨body, hclass⟩

theorem exists_offered_of_lexicalCandidates
    (hmem : signature ∈ graph.lexicalCandidates name scope) :
    ∃ outer, signature ∈ graph.offered name outer ∧ signature.isMember = false := by
  unfold lexicalCandidates at hmem
  cases hfound : graph.lookupFree name scope with
  | none => simp [hfound] at hmem
  | some found =>
      obtain ⟨outer, set⟩ := found
      rw [hfound] at hmem
      have hset : set = _ := eq_offer_of_firstOffer hfound
      subst hset
      obtain ⟨hoffered, hfree⟩ := List.mem_filter.mp hmem
      exact ⟨outer, hoffered, by simpa using hfree⟩

theorem exists_space_of_associatedCandidates
    (hmem : signature ∈ graph.associatedCandidates name operands) :
    ∃ space, signature ∈ graph.lookupInSpace space name ∧ signature.isMember = false := by
  obtain ⟨space, _, hspace⟩ := List.mem_flatMap.mp hmem
  obtain ⟨hfound, hfree⟩ := List.mem_filter.mp hspace
  exact ⟨space, hfound, by simpa using hfree⟩

theorem exists_offered_of_named {proposal : Proposal}
    (hmem : proposal ∈ graph.collect (.named name) scope operands) :
    ∃ outer, proposal.signature ∈ graph.offered name outer := by
  simp only [collect] at hmem
  cases hfound : graph.lookup name scope with
  | none => simp [hfound] at hmem
  | some found =>
      obtain ⟨outer, set⟩ := found
      rw [hfound] at hmem
      obtain ⟨signature, hsignature, rfl⟩ := List.mem_map.mp hmem
      have hset : set = _ := eq_offer_of_firstOffer hfound
      subst hset
      exact ⟨outer, hsignature⟩

end Sources

section Stored

variable (hstored : StoredOnce accepts graph)
include hstored

theorem StoredOnce.mem_stored_of_offered {name : String} {scope : ScopeId}
    (hmem : signature ∈ graph.offered name scope) : signature ∈ graph.stored :=
  (hstored.reports_visit name graph.walkBound scope []).mem_stored hmem

theorem StoredOnce.mem_stored_of_lookupInSpace {space : ScopeId} {name : String}
    (hmem : signature ∈ graph.lookupInSpace space name) : signature ∈ graph.stored := by
  rw [lookupInSpace, mergeUnique_eq_insertAll] at hmem
  rcases KeyedSet.mem_or_mem_of_mem_insertAll hmem with hown | hcopy
  · exact (hstored.reports_visitAlone name _ space []).mem_stored hown
  · exact hstored.mem_stored_of_associations hcopy

theorem StoredOnce.memberCandidates_subset (name : String) (operands : List Fingerprint) :
    graph.memberCandidates name operands ⊆ graph.stored := by
  intro signature hmem
  obtain ⟨body, hoffered⟩ := exists_offered_of_memberCandidates hmem
  exact hstored.mem_stored_of_offered hoffered

theorem StoredOnce.lexicalCandidates_subset (name : String) (scope : ScopeId) :
    graph.lexicalCandidates name scope ⊆ graph.stored := by
  intro signature hmem
  obtain ⟨outer, hoffered, _⟩ := exists_offered_of_lexicalCandidates hmem
  exact hstored.mem_stored_of_offered hoffered

theorem StoredOnce.associatedCandidates_subset (name : String) (operands : List Fingerprint) :
    graph.associatedCandidates name operands ⊆ graph.stored := by
  intro signature hmem
  obtain ⟨space, hfound, _⟩ := exists_space_of_associatedCandidates hmem
  exact hstored.mem_stored_of_lookupInSpace hfound

end Stored

/-! ## Collecting from three sources -/

/-- The key under which a proposal is dropped as found before. -/
def proposalKey (proposal : Proposal) : Fingerprint :=
  proposal.signature.fingerprint

theorem collectOperator_eq (name : String) (scope : ScopeId) (operands : List Fingerprint) :
    graph.collectOperator name scope operands =
      KeyedSet.insertAll proposalKey
        (KeyedSet.insertAll proposalKey
          (KeyedSet.insertAll proposalKey []
            (Proposal.foundBy .member (graph.memberCandidates name operands)))
          (Proposal.foundBy .lexical (graph.lexicalCandidates name scope)))
        (Proposal.foundBy .argumentDependent (graph.associatedCandidates name operands)) := by
  rw [collectOperator, List.foldl_append, List.foldl_append]
  rfl

/-- Proposals of one source are told apart by their keys. -/
theorem keyInjective_foundBy (source : Provenance) {signatures : List Signature}
    (hinjective : KeyedSet.KeyInjective (·.fingerprint) signatures) :
    KeyedSet.KeyInjective proposalKey (Proposal.foundBy source signatures) := by
  intro a ha b hb hkey
  obtain ⟨first, hfirst, rfl⟩ := List.mem_map.mp ha
  obtain ⟨second, hsecond, rfl⟩ := List.mem_map.mp hb
  rw [hinjective first hfirst second hsecond hkey]

/-- A candidate of an operator has one of the three sources. -/
theorem mem_source_of_collectOperator {name : String} {scope : ScopeId}
    {operands : List Fingerprint} {proposal : Proposal}
    (hmem : proposal ∈ graph.collectOperator name scope operands) :
    proposal.signature ∈ graph.memberCandidates name operands ∨
      proposal.signature ∈ graph.lexicalCandidates name scope ∨
        proposal.signature ∈ graph.associatedCandidates name operands := by
  have hfoundBy : ∀ {source : Provenance} {signatures : List Signature},
      proposal ∈ Proposal.foundBy source signatures → proposal.signature ∈ signatures := by
    intro source signatures hfound
    obtain ⟨signature, hsignature, rfl⟩ := List.mem_map.mp hfound
    exact hsignature
  rw [collectOperator_eq] at hmem
  rcases KeyedSet.mem_or_mem_of_mem_insertAll hmem with hearlier | hassociated
  · rcases KeyedSet.mem_or_mem_of_mem_insertAll hearlier with hfirst | hlexical
    · rcases KeyedSet.mem_or_mem_of_mem_insertAll hfirst with hnone | hmember
      · cases hnone
      · exact Or.inl (hfoundBy hmember)
    · exact Or.inr (Or.inl (hfoundBy hlexical))
  · exact Or.inr (Or.inr (hfoundBy hassociated))

/-- Every candidate of a call is stored. -/
theorem StoredOnce.mem_stored_of_collect (hstored : StoredOnce accepts graph) {callee : Callee}
    {scope : ScopeId} {operands : List Fingerprint} {proposal : Proposal}
    (hmem : proposal ∈ graph.collect callee scope operands) :
    proposal.signature ∈ graph.stored := by
  cases callee with
  | named name =>
      obtain ⟨outer, hoffered⟩ := exists_offered_of_named hmem
      exact hstored.mem_stored_of_offered hoffered
  | operator op =>
      rcases mem_source_of_collectOperator hmem with hmember | hlexical | hassociated
      · exact hstored.memberCandidates_subset _ _ hmember
      · exact hstored.lexicalCandidates_subset _ _ hlexical
      · exact hstored.associatedCandidates_subset _ _ hassociated

end ScopeGraph

namespace Program

/-- Where every stored signature is well-formed, a call fails only in the checks before
look-up. -/
theorem resolve_of_storedOnce {graph : ScopeGraph} {table : ConversionTable}
    (hstored : ScopeGraph.StoredOnce (fun signature => signature.check = .ok ()) graph)
    (call : CallSite) :
    resolve ⟨graph, table⟩ call = (checkCall ⟨graph, table⟩ call).map fun _ =>
      ⟨call.id, Resolution.ofCandidates
        ((graph.collect call.callee call.scope call.operandTypes).map fun proposal =>
          proposal.matchedTo call.args table graph)⟩ := by
  apply resolve_of_check
  intro proposal hmem
  exact hstored.accepted _ (hstored.mem_stored_of_collect hmem)

end Program
end CallResolution
