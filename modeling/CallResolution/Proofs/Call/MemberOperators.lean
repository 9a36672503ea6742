import Mathlib.Tactic
import CallResolution.Proofs.Call.Collection
import CallResolution.Proofs.Scope.Keeping

/-!
# Member operators among the candidates

The member candidates of an operator are the members among what the class of the left
operand offers.  A friend of that class is no candidate of this kind, but it is offered like
any other declaration, and it hides what the bases declare.  So a friend operator in a
derived class takes the inherited member operators out of the candidates.

Apart from such classes, friends make no difference to the member candidates.
-/

namespace CallResolution
namespace ScopeGraph

/-- The signatures that are collected for an operator as members, in order. -/
def collectedMembers (graph : ScopeGraph) (op : Operator) (scope : ScopeId)
    (operands : List Fingerprint) : List Signature :=
  ((graph.collect (.operator op) scope operands).filter (·.source = .member)).map (·.signature)

section Members

variable {graph : ScopeGraph} {op : Operator}

theorem StoredOnce.nodup_memberCandidates {accepts : Signature → Prop}
    (hstored : StoredOnce accepts graph) (name : String) (operands : List Fingerprint) :
    ((graph.memberCandidates name operands).map (·.fingerprint)).Nodup := by
  cases operands with
  | nil => exact List.nodup_nil
  | cons left rest =>
      have hclass : ((graph.lookupInClass left name).map (·.fingerprint)).Nodup := by
        unfold lookupInClass
        split
        · exact (hstored.reports_visit name graph.walkBound _ []).nodup
        · exact List.nodup_nil
      exact hclass.sublist (List.filter_sublist.map _)

/-- The other two sources add nothing to the members and take nothing away. -/
theorem StoredOnce.collectedMembers_eq {accepts : Signature → Prop}
    (hstored : StoredOnce accepts graph) (scope : ScopeId) (operands : List Fingerprint) :
    graph.collectedMembers op scope operands =
      graph.memberCandidates op.declaredName operands := by
  have hothers : ∀ (source : Provenance) (signatures : List Signature), source ≠ .member →
      ∀ proposal ∈ Proposal.foundBy source signatures,
        decide (proposal.source = .member) = false := by
    intro source signatures hsource proposal hmem
    obtain ⟨signature, _, rfl⟩ := List.mem_map.mp hmem
    exact decide_eq_false hsource
  have hnodup : (([] ++ Proposal.foundBy .member
      (graph.memberCandidates op.declaredName operands)).map proposalKey).Nodup := by
    rw [List.nil_append, Proposal.foundBy, List.map_map]
    exact hstored.nodup_memberCandidates op.declaredName operands
  -- The members come first, so none of them is dropped as found before.
  rw [collectedMembers, collect, collectOperator_eq,
    KeyedSet.filter_insertAll_of_dropped _ (hothers .argumentDependent _ (by decide)),
    KeyedSet.filter_insertAll_of_dropped _ (hothers .lexical _ (by decide)),
    KeyedSet.insertAll_of_nodup hnodup]
  simp [Proposal.foundBy, List.filter_map, Function.comp_def]

variable (hbuilt : graph.Built) {type : Fingerprint} (scope : ScopeId) (rest : List Fingerprint)
include hbuilt

theorem collectedMembers_of_unmasked
    (hunmasked : ∀ body ∈ graph.body? type,
      graph.Unmasked Signature.isMember op.declaredName body) :
    graph.collectedMembers op scope (type :: rest) =
      (graph.keeping Signature.isMember).lookupInClass type op.declaredName := by
  rw [hbuilt.storedOnce.collectedMembers_eq, memberCandidates, lookupInClass, lookupInClass,
    body?_keeping]
  cases hbody : graph.body? type with
  | none => rfl
  | some body => exact filter_offered_of_unmasked hbuilt (hunmasked body hbody)

theorem collectedMembers_of_masks {body : ScopeId} (hbody : graph.body? type = some body)
    (hmasks : graph.Masks Signature.isMember op.declaredName body) :
    graph.collectedMembers op scope (type :: rest) = [] ∧
      (graph.keeping Signature.isMember).lookupInClass type op.declaredName ≠ [] := by
  rw [hbuilt.storedOnce.collectedMembers_eq, memberCandidates, lookupInClass, lookupInClass,
    body?_keeping, hbody]
  exact hmasks.parts hbuilt

end Members

/-- The member candidates of an operator, compared with a look-up in the graph without
friends and free functions.

Both give the same if no class is met that may mask its bases.  For a class that does mask
them there are no member candidates, although there is something to be found.  Where a
class that may mask its bases pulls nothing in, they give the same for every type exactly
if no class masks its bases. -/
theorem collectedMembers_eq_lookup_of_members_alone {graph : ScopeGraph} (hbuilt : graph.Built)
    (op : Operator) :
    (∀ type scope rest,
      (∀ body ∈ graph.body? type, graph.Unmasked Signature.isMember op.declaredName body) →
        graph.collectedMembers op scope (type :: rest) =
          (graph.keeping Signature.isMember).lookupInClass type op.declaredName) ∧
    (∀ type scope rest body, graph.body? type = some body →
      graph.Masks Signature.isMember op.declaredName body →
        graph.collectedMembers op scope (type :: rest) = [] ∧
          (graph.keeping Signature.isMember).lookupInClass type op.declaredName ≠ []) ∧
    ((∀ scope, graph.MayMask Signature.isMember op.declaredName scope →
        graph.pulledFrom scope op.declaredName = []) →
      ((∀ type scope rest, graph.collectedMembers op scope (type :: rest) =
          (graph.keeping Signature.isMember).lookupInClass type op.declaredName) ↔
        ∀ scope, ¬ graph.Masks Signature.isMember op.declaredName scope)) := by
  refine ⟨fun type scope rest => collectedMembers_of_unmasked hbuilt scope rest,
    fun type scope rest body => collectedMembers_of_masks hbuilt scope rest,
    fun hpulled => ⟨?_, ?_⟩⟩
  · intro hsame scope hmasks
    obtain ⟨base, hbase, _⟩ := hmasks.base_supplies
    obtain ⟨type, record, hrecord, hbody, _⟩ :=
      exists_class_of_directBases hbuilt.hierarchy hbase
    have hclass : graph.body? type = some scope := by rw [body?, hrecord, Option.bind_some, hbody]
    obtain ⟨hnothing, hsomething⟩ :=
      collectedMembers_of_masks hbuilt ScopeId.root [] hclass hmasks
    exact hsomething ((hsame type ScopeId.root []).symm.trans hnothing)
  · intro hnone type scope rest
    refine collectedMembers_of_unmasked hbuilt scope rest fun _ _ lower _ hmay => ?_
    exact hnone lower (hmay.masks (hpulled lower hmay))

/-- A parameter that takes a class by value or by reference to a constant. -/
def classParameter (type : String) (mode : PassingMode) : Parameter where
  type := .ofName type
  mode := mode
  hasDefault := false
  isEllipsis := false

/-- Two classes with an addition, of which the derived one has a friend besides, and one
that declares nothing. -/
def additionChain : ScopeGraph :=
  Command.runAll
    [.newClass ScopeId.root "Base" [], .newClass ScopeId.root "Derived" [.ofName "Base"],
      .newClass ScopeId.root "Last" [.ofName "Derived"],
      .newMemberOperator (.ofName "Base") .add true [classParameter "Base" .constReference],
      .newMemberOperator (.ofName "Derived") .add true [classParameter "Base" .constReference],
      .newOperator ⟨2⟩ .add [classParameter "Derived" .byValue, classParameter "Last" .byValue]]
    empty

/-- The friend does not matter; `Last` inherits the addition of `Derived` alone. -/
theorem additionChain_collects_inherited :
    additionChain.Built ∧
      (∀ type scope rest, additionChain.collectedMembers .add scope (type :: rest) =
        (additionChain.keeping Signature.isMember).lookupInClass type "operator+") ∧
      (additionChain.collectedMembers .add ScopeId.root [.ofName "Last", .ofName "Last"]).map
        (·.origin) = [⟨2⟩] := by
  have hbuilt : additionChain.Built := ⟨_, Or.inl rfl⟩
  have hpulls : ∀ edge ∈ additionChain.edges,
      edge.label ≠ .pullsIn Operator.add.declaredName := by decide +kernel
  have hsize : additionChain.size = 4 := by decide +kernel
  have hscopes : ∀ index < additionChain.size,
      additionChain.offeredAlone Operator.add.declaredName ⟨index⟩ = [] ∨
        ∃ signature ∈ additionChain.offeredAlone Operator.add.declaredName ⟨index⟩,
          signature.isMember = true := by
    rw [hsize]
    decide +kernel
  obtain ⟨_, _, hiff⟩ := collectedMembers_eq_lookup_of_members_alone hbuilt .add
  refine ⟨hbuilt, ?_, by decide +kernel⟩
  exact (hiff fun _ _ => pulledFrom_eq_nil hpulls).mpr (not_masks_of_scopes hscopes)

/-- A class with an addition, and a class derived from it with an addition as a friend,
which the root namespace offers to argument-dependent look-up. -/
def friendAddition : ScopeGraph :=
  Command.runAll
    [.newClass ScopeId.root "Base" [], .newClass ScopeId.root "Derived" [.ofName "Base"],
      .newMemberOperator (.ofName "Base") .add true [classParameter "Base" .constReference],
      .declare ⟨⟨"operator+", ⟨2⟩, .operator,
        [classParameter "Derived" .byValue, classParameter "Derived" .byValue], none⟩,
        some ScopeId.root⟩] empty

/-- The friend is the only candidate for two operands of `Derived`; the inherited addition
is not among them. -/
theorem friendAddition_hides_inherited :
    friendAddition.Built ∧
      (friendAddition.collect (.operator .add) ScopeId.root
        [.ofName "Derived", .ofName "Derived"]).map
          (fun proposal => (proposal.signature.origin, proposal.source)) =
        [(⟨2⟩, .argumentDependent)] ∧
      ((friendAddition.keeping Signature.isMember).lookupInClass (.ofName "Derived")
        "operator+").map (·.origin) = [⟨1⟩] :=
  ⟨⟨_, Or.inl rfl⟩, by decide +kernel, by decide +kernel⟩

end ScopeGraph
end CallResolution
