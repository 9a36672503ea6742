import Mathlib.Tactic
import CallResolution.Proofs.Call.Collection

/-!
# The three sources of an operator's candidates

An operator takes its candidates from the class of its left operand, from the scopes around
the call and from the namespaces of all its operands.  The three are put into one list, where
a fingerprint that is there already is dropped.

In a graph built by commands equal fingerprints mean equal signatures, whichever way they are
reached and whether they are the stored ones or copies.  So dropping loses nothing: the list
is the union of the sources, and a signature that several of them find has the first as its
source.
-/

namespace CallResolution
namespace ScopeGraph

/-- One of the look-ups for an operator finds the signature: a member in the class of the left
operand, a non-member from the scope of the call, or a non-member in a namespace that owns the
type of an operand. -/
def FindsOperator (graph : ScopeGraph) (name : String) (scope : ScopeId)
    (operands : List Fingerprint) (signature : Signature) : Provenance → Prop
  | .member =>
      signature.isMember = true ∧
        ∃ left ∈ operands.head?, signature ∈ graph.lookupInClass left name
  | .lexical =>
      ∃ outer set, graph.lookupFree name scope = some (outer, set) ∧ signature ∈ set
  | .argumentDependent =>
      signature.isMember = false ∧
        ∃ operand ∈ operands, ∃ space, graph.home? operand = some space ∧
          signature ∈ graph.lookupInSpace space name

/-! ## One source -/

section Source

variable {graph : ScopeGraph} {name : String} {scope : ScopeId} {operands : List Fingerprint}
  {signature : Signature}

theorem mem_memberCandidates_iff :
    signature ∈ graph.memberCandidates name operands ↔
      graph.FindsOperator name scope operands signature .member := by
  cases operands with
  | nil => simp [memberCandidates, FindsOperator]
  | cons left rest => simp [memberCandidates, FindsOperator, and_comm]

theorem mem_lexicalCandidates_iff :
    signature ∈ graph.lexicalCandidates name scope ↔
      graph.FindsOperator name scope operands signature .lexical := by
  unfold lexicalCandidates FindsOperator
  cases hfound : graph.lookupFree name scope with
  | none => simp
  | some found => simp [Prod.ext_iff]

theorem mem_associatedCandidates_iff :
    signature ∈ graph.associatedCandidates name operands ↔
      graph.FindsOperator name scope operands signature .argumentDependent := by
  simp only [associatedCandidates, operandNamespaces, FindsOperator, List.mem_flatMap,
    List.mem_eraseDups, List.mem_filterMap, List.mem_filter, Bool.not_eq_true']
  constructor
  · rintro ⟨space, ⟨operand, hoperand, hhome⟩, hfound, hfree⟩
    exact ⟨hfree, operand, hoperand, space, hhome, hfound⟩
  · rintro ⟨hfree, operand, hoperand, space, hhome, hfound⟩
    exact ⟨space, ⟨operand, hoperand, hhome⟩, hfound, hfree⟩

end Source

/-! ## One source after another -/

section Merge

variable {accepts : Signature → Prop} {graph : ScopeGraph} (hstored : StoredOnce accepts graph)
  {source : Provenance} {signatures : List Signature} (hsignatures : signatures ⊆ graph.stored)
  {proposals : List Proposal} (hproposals : proposals.map (·.signature) ⊆ graph.stored)
include hstored hsignatures hproposals

/-- A source adds the signatures that were not proposed before. -/
theorem StoredOnce.mem_insertAll_foundBy_iff {proposal : Proposal} :
    proposal ∈ KeyedSet.insertAll proposalKey proposals (Proposal.foundBy source signatures) ↔
      proposal ∈ proposals ∨
        proposal.source = source ∧ proposal.signature ∈ signatures ∧
          proposal.signature ∉ proposals.map (·.signature) := by
  have hfound : proposal ∈ Proposal.foundBy source signatures ↔
      proposal.source = source ∧ proposal.signature ∈ signatures := by
    constructor
    · intro hmem
      obtain ⟨signature, hsignature, rfl⟩ := List.mem_map.mp hmem
      exact ⟨rfl, hsignature⟩
    · rintro ⟨rfl, hsignature⟩
      exact List.mem_map.mpr ⟨proposal.signature, hsignature, rfl⟩
  -- Among stored signatures a taken fingerprint is a taken signature.
  have hkey : proposal.signature ∈ signatures →
      (proposalKey proposal ∈ proposals.map proposalKey ↔
        proposal.signature ∈ proposals.map (·.signature)) := by
    intro hsignature
    constructor
    · intro htaken
      obtain ⟨other, hother, hsame⟩ := List.mem_map.mp htaken
      have hmem : other.signature ∈ proposals.map (·.signature) := List.mem_map_of_mem hother
      have heq : other.signature = proposal.signature :=
        hstored.keyInjective (List.Subset.refl _) _ (hproposals hmem) _ (hsignatures hsignature)
          hsame
      exact heq ▸ hmem
    · intro htaken
      obtain ⟨other, hother, hsame⟩ := List.mem_map.mp htaken
      exact List.mem_map.mpr ⟨other, hother, congrArg Signature.fingerprint hsame⟩
  rw [KeyedSet.mem_insertAll_iff (keyInjective_foundBy source (hstored.keyInjective hsignatures)),
    hfound]
  constructor
  · rintro (hold | ⟨⟨hsource, hsignature⟩, hfree⟩)
    · exact Or.inl hold
    · exact Or.inr ⟨hsource, hsignature, fun htaken => hfree ((hkey hsignature).mpr htaken)⟩
  · rintro (hold | ⟨hsource, hsignature, hfree⟩)
    · exact Or.inl hold
    · exact Or.inr ⟨⟨hsource, hsignature⟩, fun htaken => hfree ((hkey hsignature).mp htaken)⟩

theorem StoredOnce.mem_map_insertAll_foundBy_iff {signature : Signature} :
    signature ∈ (KeyedSet.insertAll proposalKey proposals
        (Proposal.foundBy source signatures)).map (·.signature) ↔
      signature ∈ proposals.map (·.signature) ∨ signature ∈ signatures := by
  constructor
  · intro hmem
    obtain ⟨proposal, hproposal, rfl⟩ := List.mem_map.mp hmem
    rcases (hstored.mem_insertAll_foundBy_iff hsignatures hproposals).mp hproposal with
      hold | ⟨_, hnew, _⟩
    · exact Or.inl (List.mem_map_of_mem hold)
    · exact Or.inr hnew
  · intro hmem
    by_cases hold : signature ∈ proposals.map (·.signature)
    · obtain ⟨proposal, hproposal, rfl⟩ := List.mem_map.mp hold
      exact List.mem_map_of_mem
        ((hstored.mem_insertAll_foundBy_iff hsignatures hproposals).mpr (Or.inl hproposal))
    · have hnew : (⟨signature, source⟩ : Proposal) ∈
          KeyedSet.insertAll proposalKey proposals (Proposal.foundBy source signatures) :=
        (hstored.mem_insertAll_foundBy_iff hsignatures hproposals).mpr
          (Or.inr ⟨rfl, hmem.resolve_left hold, hold⟩)
      exact List.mem_map.mpr ⟨_, hnew, rfl⟩

end Merge

section Collect

variable {accepts : Signature → Prop} {graph : ScopeGraph} (hstored : StoredOnce accepts graph)
include hstored

/-- A proposal comes from its own source, and no earlier source finds its signature. -/
theorem StoredOnce.mem_collectOperator_iff {name : String} {scope : ScopeId}
    {operands : List Fingerprint} {proposal : Proposal} :
    proposal ∈ graph.collectOperator name scope operands ↔
      (proposal.source = .member ∧
          graph.FindsOperator name scope operands proposal.signature .member) ∨
        (proposal.source = .lexical ∧
          graph.FindsOperator name scope operands proposal.signature .lexical ∧
          ¬ graph.FindsOperator name scope operands proposal.signature .member) ∨
        (proposal.source = .argumentDependent ∧
          graph.FindsOperator name scope operands proposal.signature .argumentDependent ∧
          ¬ (graph.FindsOperator name scope operands proposal.signature .member ∨
            graph.FindsOperator name scope operands proposal.signature .lexical)) := by
  have hmembers := hstored.memberCandidates_subset name operands
  have hlexical := hstored.lexicalCandidates_subset name scope
  have hnone : ([] : List Proposal).map (·.signature) ⊆ graph.stored := List.nil_subset _
  have hfirst : (KeyedSet.insertAll proposalKey []
      (Proposal.foundBy .member (graph.memberCandidates name operands))).map (·.signature) ⊆
        graph.stored := by
    intro signature hmem
    rcases (hstored.mem_map_insertAll_foundBy_iff hmembers hnone).mp hmem with hnil | hmember
    · cases hnil
    · exact hmembers hmember
  have hsecond : (KeyedSet.insertAll proposalKey (KeyedSet.insertAll proposalKey []
      (Proposal.foundBy .member (graph.memberCandidates name operands)))
      (Proposal.foundBy .lexical (graph.lexicalCandidates name scope))).map (·.signature) ⊆
        graph.stored := by
    intro signature hmem
    rcases (hstored.mem_map_insertAll_foundBy_iff hlexical hfirst).mp hmem with hearlier | hnew
    · exact hfirst hearlier
    · exact hlexical hnew
  rw [collectOperator_eq,
    hstored.mem_insertAll_foundBy_iff (hstored.associatedCandidates_subset name operands) hsecond,
    hstored.mem_map_insertAll_foundBy_iff hlexical hfirst,
    hstored.mem_insertAll_foundBy_iff hlexical hfirst,
    hstored.mem_map_insertAll_foundBy_iff hmembers hnone,
    hstored.mem_insertAll_foundBy_iff hmembers hnone,
    @mem_memberCandidates_iff graph name scope,
    @mem_lexicalCandidates_iff graph name scope operands,
    @mem_associatedCandidates_iff graph name scope]
  simp only [List.map_nil, List.not_mem_nil, false_or, not_false_eq_true, and_true, or_assoc]

theorem StoredOnce.mem_map_collectOperator_iff {name : String} {scope : ScopeId}
    {operands : List Fingerprint} {signature : Signature} :
    signature ∈ (graph.collectOperator name scope operands).map (·.signature) ↔
      ∃ source, graph.FindsOperator name scope operands signature source := by
  constructor
  · intro hmem
    obtain ⟨proposal, hproposal, rfl⟩ := List.mem_map.mp hmem
    rcases hstored.mem_collectOperator_iff.mp hproposal with
      ⟨_, hfound⟩ | ⟨_, hfound, _⟩ | ⟨_, hfound, _⟩
    · exact ⟨.member, hfound⟩
    · exact ⟨.lexical, hfound⟩
    · exact ⟨.argumentDependent, hfound⟩
  · rintro ⟨source, hfound⟩
    -- The first source that finds the signature proposes it.
    suffices hproposal : ∃ first,
        (⟨signature, first⟩ : Proposal) ∈ graph.collectOperator name scope operands by
      obtain ⟨first, hmem⟩ := hproposal
      exact List.mem_map.mpr ⟨_, hmem, rfl⟩
    simp only [hstored.mem_collectOperator_iff]
    by_cases hmember : graph.FindsOperator name scope operands signature .member
    · exact ⟨.member, Or.inl ⟨rfl, hmember⟩⟩
    · by_cases hlexical : graph.FindsOperator name scope operands signature .lexical
      · exact ⟨.lexical, Or.inr (Or.inl ⟨rfl, hlexical, hmember⟩)⟩
      · cases source with
        | member => exact absurd hfound hmember
        | lexical => exact absurd hfound hlexical
        | argumentDependent =>
            exact ⟨.argumentDependent, Or.inr (Or.inr ⟨rfl, hfound, by simp [hmember, hlexical]⟩)⟩

end Collect

/-- No signature is collected twice, in any graph. -/
theorem nodup_collectOperator (graph : ScopeGraph) (name : String) (scope : ScopeId)
    (operands : List Fingerprint) :
    ((graph.collectOperator name scope operands).map (·.signature)).Nodup := by
  have hnil : (([] : List Proposal).map proposalKey).Nodup := List.nodup_nil
  have hkeys : ((graph.collectOperator name scope operands).map proposalKey).Nodup := by
    rw [collectOperator_eq]
    exact KeyedSet.nodup_insertAll (KeyedSet.nodup_insertAll (KeyedSet.nodup_insertAll hnil _) _) _
  have hmap : (graph.collectOperator name scope operands).map proposalKey =
      ((graph.collectOperator name scope operands).map (·.signature)).map (·.fingerprint) := by
    rw [List.map_map]
    rfl
  exact (hmap ▸ hkeys).of_map

/-- The candidates of an operator are what its three sources find, each once, with the first
source that finds it. -/
theorem operator_candidates_unite_sources {graph : ScopeGraph} (hbuilt : graph.Built)
    (op : Operator) (scope : ScopeId) (operands : List Fingerprint) :
    ((graph.collect (.operator op) scope operands).map (·.signature)).Nodup ∧
    (∀ signature ∈ graph.stored,
      signature ∈ (graph.collect (.operator op) scope operands).map (·.signature) ↔
        ∃ source, graph.FindsOperator op.declaredName scope operands signature source) ∧
    ∀ proposal ∈ graph.collect (.operator op) scope operands,
      proposal.signature ∈ graph.stored ∧
      (graph.FindsOperator op.declaredName scope operands proposal.signature .member →
        proposal.source = .member) ∧
      (¬ graph.FindsOperator op.declaredName scope operands proposal.signature .member →
        graph.FindsOperator op.declaredName scope operands proposal.signature .lexical →
          proposal.source = .lexical) ∧
      (¬ graph.FindsOperator op.declaredName scope operands proposal.signature .member →
        ¬ graph.FindsOperator op.declaredName scope operands proposal.signature .lexical →
          proposal.source = .argumentDependent) := by
  have hstored := hbuilt.storedOnce
  refine ⟨nodup_collectOperator graph _ scope operands,
    fun signature _ => hstored.mem_map_collectOperator_iff, ?_⟩
  intro proposal hproposal
  refine ⟨hstored.mem_stored_of_collect hproposal, ?_⟩
  rcases hstored.mem_collectOperator_iff.mp hproposal with
    ⟨hsource, hmember⟩ | ⟨hsource, hlexical, hnone⟩ | ⟨hsource, _, hnone⟩
  · exact ⟨fun _ => hsource, fun hnone => absurd hmember hnone, fun hnone => absurd hmember hnone⟩
  · exact ⟨fun hmember => absurd hmember hnone, fun _ _ => hsource,
      fun _ hnot => absurd hlexical hnot⟩
  · exact ⟨fun hmember => absurd (Or.inl hmember) hnone,
      fun _ hlexical => absurd (Or.inr hlexical) hnone, fun _ _ => hsource⟩

/-- An addition of the class `left::Vec` and the class `right::Mat` that is declared in the
scope with this number and is no member. -/
def mixedAddition (origin : Nat) : Signature where
  name := "operator+"
  origin := ⟨origin⟩
  kind := .operator
  parameters := [⟨.ofName "left::Vec", .byValue, false, false⟩,
    ⟨.ofName "right::Mat", .constReference, false, false⟩]
  receiver := none

/-- Two namespaces with a class each.  Both namespaces and the first class declare an addition;
that of the class is also offered by its namespace and has a member beside it. -/
def twoSpaces : ScopeGraph :=
  Command.runAll
    [.enterPath ["left"], .enterPath ["right"], .newClass ⟨1⟩ "Vec" [], .newClass ⟨2⟩ "Mat" [],
      .newMemberOperator (.ofName "left::Vec") .add true [.ellipsis],
      .declare ⟨mixedAddition 1, none⟩, .declare ⟨mixedAddition 2, none⟩,
      .declare ⟨mixedAddition 3, some ⟨1⟩⟩] empty

/-- From inside the first namespace its addition is found in two ways and kept as lexical.  The
additions of the other namespace and of the class are found through the operands alone. -/
theorem twoSpaces_collects_union :
    twoSpaces.Built ∧ mixedAddition 1 ∈ twoSpaces.stored ∧
      twoSpaces.FindsOperator "operator+" ⟨1⟩ [.ofName "left::Vec", .ofName "right::Mat"]
        (mixedAddition 1) .argumentDependent ∧
      (⟨mixedAddition 1, .lexical⟩ : Proposal) ∈ twoSpaces.collect (.operator .add) ⟨1⟩
        [.ofName "left::Vec", .ofName "right::Mat"] ∧
      (twoSpaces.collect (.operator .add) ⟨1⟩ [.ofName "left::Vec", .ofName "right::Mat"]).map
          (fun proposal => (proposal.signature.origin.index, proposal.source)) =
        [(3, .member), (1, .lexical), (3, .argumentDependent), (2, .argumentDependent)] := by
  have hbuilt : twoSpaces.Built := ⟨_, Or.inl rfl⟩
  obtain ⟨_, hunion, hsources⟩ := operator_candidates_unite_sources hbuilt .add ⟨1⟩
    [.ofName "left::Vec", .ofName "right::Mat"]
  have hstored : mixedAddition 1 ∈ twoSpaces.stored := by decide +kernel
  have hassociated : twoSpaces.FindsOperator "operator+" ⟨1⟩
      [.ofName "left::Vec", .ofName "right::Mat"] (mixedAddition 1) .argumentDependent :=
    ⟨rfl, .ofName "left::Vec", by simp, ⟨1⟩, by decide +kernel, by decide +kernel⟩
  have hlexical : twoSpaces.FindsOperator "operator+" ⟨1⟩
      [.ofName "left::Vec", .ofName "right::Mat"] (mixedAddition 1) .lexical :=
    ⟨⟨1⟩, [mixedAddition 1], by decide +kernel, by simp⟩
  obtain ⟨proposal, hproposal, hsame⟩ := List.mem_map.mp
    ((hunion _ hstored).mpr ⟨.argumentDependent, hassociated⟩)
  obtain ⟨_, _, hsource, _⟩ := hsources proposal hproposal
  rw [hsame] at hsource
  have hfirst : proposal = ⟨mixedAddition 1, .lexical⟩ := by
    obtain ⟨signature, source⟩ := proposal
    obtain rfl : signature = mixedAddition 1 := hsame
    exact congrArg (Proposal.mk _) (hsource (fun hmember => by cases hmember.1) hlexical)
  exact ⟨hbuilt, hstored, hassociated, hfirst ▸ hproposal, by decide +kernel⟩

end ScopeGraph
end CallResolution
