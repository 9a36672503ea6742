import Mathlib.Data.List.Perm.Basic
import Mathlib.Tactic
import CallResolution.Proofs.Call.BestViable
import CallResolution.Proofs.Call.Collection
import CallResolution.Proofs.Scope.Additions

/-!
# The order of declarations does not matter

Declarations and pull-ins that succeed in one order succeed in every order, and no call can
tell the orders apart: it fails with the same error, or has the same kind of outcome with
the same selected candidate or the same attempted or tied candidates.

The candidates that a call did not choose may be listed in another order, since reports
list them as they were found.
-/

namespace CallResolution

/-! ## What matching asks of a graph -/

section Derives

variable {first second : ScopeGraph} (hderives : first.derives = second.derives)
  (table : ConversionTable)
include hderives

theorem ConversionTable.step?_congr : table.step? first = table.step? second := by
  funext source target
  rw [step?, step?, hderives]

theorem ConversionTable.convert_congr : table.convert first = table.convert second := by
  have hstep := table.step?_congr hderives
  have hthrough : table.routeThrough first = table.routeThrough second := by
    funext target rule
    rw [routeThrough, routeThrough, hstep]
  funext source target
  rw [convert, convert, userRoutes, userRoutes, hthrough, hstep]

theorem Slot.bind_congr (slot : Slot) (arg : Argument) :
    slot.bind arg table first = slot.bind arg table second := by
  cases slot with
  | receiver taker => rw [bind, bind, Argument.bindAsReceiver, Argument.bindAsReceiver, hderives]
  | parameter taker =>
      rw [bind, bind, Argument.bind, Argument.bind, table.convert_congr hderives]

theorem bindArguments_congr (position : Nat) (slots : List Slot) (args : List Argument) :
    bindArguments table first position slots args =
      bindArguments table second position slots args := by
  induction args generalizing position slots with
  | nil => rfl
  | cons arg rest ih => simp only [bindArguments, Slot.bind_congr hderives table, ih]

/-- Matching sees of a graph only which class derives from which. -/
theorem Proposal.matchedTo_congr (proposal : Proposal) (args : List Argument) :
    proposal.matchedTo args table first = proposal.matchedTo args table second := by
  rw [matchedTo, matchedTo, bindArguments_congr hderives table]

end Derives

/-! ## Collecting from rearranged graphs -/

namespace ScopeGraph

section Collect

variable {accepts : Signature → Prop} {first second : ScopeGraph}
  (hsame : Rearranged first second) (hfirst : StoredOnce accepts first)
  (hsecond : StoredOnce accepts second)
include hsame hfirst hsecond

theorem Rearranged.perm_memberCandidates (name : String) (operands : List Fingerprint) :
    (first.memberCandidates name operands).Perm (second.memberCandidates name operands) := by
  cases operands with
  | nil => exact .refl _
  | cons left rest => exact (hsame.perm_lookupInClass hfirst hsecond left name).filter _

theorem Rearranged.perm_lexicalCandidates (name : String) (scope : ScopeId) :
    (first.lexicalCandidates name scope).Perm (second.lexicalCandidates name scope) := by
  have hsets := hsame.lookupFree_sameSets hfirst hsecond name scope
  unfold lexicalCandidates
  generalize first.lookupFree name scope = found at hsets ⊢
  generalize second.lookupFree name scope = other at hsets ⊢
  cases hsets with
  | none => exact .refl _
  | some hset => exact hset.2

theorem Rearranged.perm_associatedCandidates (name : String) (operands : List Fingerprint) :
    (first.associatedCandidates name operands).Perm
      (second.associatedCandidates name operands) := by
  have hhome : first.home? = second.home? := funext hsame.home?_eq
  unfold associatedCandidates operandNamespaces
  rw [hhome]
  apply List.Perm.flatMap_left
  intro space _
  exact (hsame.perm_lookupInSpace hfirst hsecond space name).filter _

theorem Rearranged.perm_collectOperator (name : String) (scope : ScopeId)
    (operands : List Fingerprint) :
    (first.collectOperator name scope operands).Perm
      (second.collectOperator name scope operands) := by
  have hmembers := (hsame.perm_memberCandidates hfirst hsecond name operands).map
    fun signature => (⟨signature, .member⟩ : Proposal)
  have hlexical := (hsame.perm_lexicalCandidates hfirst hsecond name scope).map
    fun signature => (⟨signature, .lexical⟩ : Proposal)
  have hassociated := (hsame.perm_associatedCandidates hfirst hsecond name operands).map
    fun signature => (⟨signature, .argumentDependent⟩ : Proposal)
  have hnone : (([] : List Proposal).map proposalKey).Nodup := List.nodup_nil
  rw [collectOperator_eq, collectOperator_eq]
  -- Each source meets the same proposals of the sources before it.
  apply KeyedSet.insertAll_perm
  · apply KeyedSet.insertAll_perm
    · apply KeyedSet.insertAll_perm (.refl _) hnone
      · exact keyInjective_foundBy _ (hfirst.keyInjective (hfirst.memberCandidates_subset _ _))
      · exact fun _ => hmembers.mem_iff
    · exact KeyedSet.nodup_insertAll hnone _
    · exact keyInjective_foundBy _ (hfirst.keyInjective (hfirst.lexicalCandidates_subset _ _))
    · exact fun _ => hlexical.mem_iff
  · exact KeyedSet.nodup_insertAll (KeyedSet.nodup_insertAll hnone _) _
  · exact keyInjective_foundBy _ (hfirst.keyInjective (hfirst.associatedCandidates_subset _ _))
  · exact fun _ => hassociated.mem_iff

/-- A call has the same candidates with the same sources. -/
theorem Rearranged.perm_collect (callee : Callee) (scope : ScopeId)
    (operands : List Fingerprint) :
    (first.collect callee scope operands).Perm (second.collect callee scope operands) := by
  cases callee with
  | named name =>
      have hsets := hsame.lookup_sameSets hfirst hsecond name scope
      simp only [collect]
      generalize first.lookup name scope = found at hsets ⊢
      generalize second.lookup name scope = other at hsets ⊢
      cases hsets with
      | none => exact .refl _
      | some hset => exact hset.2.map _
  | operator op => exact hsame.perm_collectOperator hfirst hsecond _ scope operands

end Collect

end ScopeGraph

/-! ## Outcomes up to order -/

namespace Resolution

/-- The same outcome, where the candidates that were not chosen may be in another order. -/
inductive SameUpToOrder : Resolution → Resolution → Prop
  | selected (candidate : Candidate) : SameUpToOrder (.selected candidate) (.selected candidate)
  | noMatch {attempted others : List Candidate} :
      attempted.Perm others → SameUpToOrder (.noMatch attempted) (.noMatch others)
  | ambiguous {tied others : List Candidate} :
      tied.Perm others → SameUpToOrder (.ambiguous tied) (.ambiguous others)

/-- Ties are not broken by the order of the candidates. -/
theorem ofCandidates_sameUpToOrder {matched others : List Candidate}
    (hperm : matched.Perm others) : SameUpToOrder (ofCandidates matched) (ofCandidates others) := by
  have hviable := hperm.filter (·.isViable)
  have hunbeaten := Candidate.unbeaten_perm hviable
  cases hanswer : ofCandidates matched with
  | selected best =>
      rw [ofCandidates_eq_selected_iff] at hanswer
      rw [hanswer, List.singleton_perm] at hunbeaten
      rw [(ofCandidates_eq_selected_iff others best).mpr hunbeaten.symm]
      exact .selected best
  | noMatch attempted =>
      obtain ⟨hnone, rfl⟩ := (ofCandidates_eq_noMatch_iff matched attempted).mp hanswer
      rw [hnone, List.nil_perm] at hviable
      rw [(ofCandidates_eq_noMatch_iff others others).mpr ⟨hviable, rfl⟩]
      exact .noMatch hperm
  | ambiguous tied =>
      obtain ⟨hsome, hmany, rfl⟩ := (ofCandidates_eq_ambiguous_iff matched tied).mp hanswer
      have hmany' : ∀ best, Candidate.unbeaten (others.filter (·.isViable)) ≠ [best] := by
        intro best hbest
        rw [hbest, List.perm_singleton] at hunbeaten
        exact hmany best hunbeaten
      have hsome' : others.filter (·.isViable) ≠ [] := by
        intro hnone
        rw [hnone, List.perm_nil] at hviable
        exact hsome hviable
      rw [(ofCandidates_eq_ambiguous_iff others _).mpr ⟨hsome', hmany', rfl⟩]
      exact .ambiguous hunbeaten

end Resolution

/-- The same error, or the same call with the same outcome up to order. -/
inductive SameAnswer : Except CallFault SettledCall → Except CallFault SettledCall → Prop
  | error (fault : CallFault) : SameAnswer (.error fault) (.error fault)
  | ok {settled other : SettledCall} : settled.id = other.id →
      settled.resolution.SameUpToOrder other.resolution → SameAnswer (.ok settled) (.ok other)

namespace Program

/-- Calls do not tell apart two graphs that differ in order only. -/
theorem resolve_sameAnswer {first second : ScopeGraph} (hsame : first.Rearranged second)
    (hfirst : ScopeGraph.StoredOnce (fun signature => signature.check = .ok ()) first)
    (hsecond : ScopeGraph.StoredOnce (fun signature => signature.check = .ok ()) second)
    (table : ConversionTable) (call : CallSite) :
    SameAnswer (resolve ⟨first, table⟩ call) (resolve ⟨second, table⟩ call) := by
  have hderives : first.derives = second.derives := by
    funext derived base
    exact hsame.derives_eq derived base
  have hchecks : checkCall ⟨first, table⟩ call = checkCall ⟨second, table⟩ call := by
    simp only [checkCall, hsame.holds_eq]
  have hcollected := hsame.perm_collect hfirst hsecond call.callee call.scope call.operandTypes
  -- No candidate is malformed, so the order cannot decide which defect is reported first.
  rw [resolve_of_storedOnce hfirst, resolve_of_storedOnce hsecond, hchecks]
  cases checkCall ⟨second, table⟩ call with
  | error fault => exact .error fault
  | ok passed =>
      refine .ok rfl ?_
      simp only [Proposal.matchedTo_congr hderives table]
      exact Resolution.ofCandidates_sameUpToOrder (hcollected.map _)

end Program

namespace Addition

theorem isChecked_command (step : Addition) : step.command.isChecked = true := by
  cases step with
  | declare declaration => rfl
  | pullIn scope name source => rfl

theorem storedOnce_runAll {graph : ScopeGraph} (hbuilt : graph.BuiltChecked)
    (steps : List Addition) :
    ScopeGraph.StoredOnce (fun signature => signature.check = .ok ())
      (Command.runAll (steps.map command) graph) := by
  refine (hbuilt.runAll ?_).storedOnce
  intro command hmem
  obtain ⟨step, _, rfl⟩ := List.mem_map.mp hmem
  exact step.isChecked_command

/-- Declarations and pull-ins that succeed in one order succeed in every order, and every
call has the same answer. -/
theorem resolve_additions_perm {graph : ScopeGraph} (hbuilt : graph.BuiltChecked)
    {steps others : List Addition} (hsucceed : AllSucceed steps graph)
    (hperm : steps.Perm others) :
    AllSucceed others graph ∧
      ∀ table call,
        SameAnswer
          (Program.resolve ⟨Command.runAll (steps.map command) graph, table⟩ call)
          (Program.resolve ⟨Command.runAll (others.map command) graph, table⟩ call) := by
  have hothers := hsucceed.perm hperm
  refine ⟨hothers, fun table call => ?_⟩
  have hsame : (Command.runAll (steps.map command) graph).Rearranged
      (Command.runAll (others.map command) graph) := by
    rw [runAll_of_allSucceed hsucceed, runAll_of_allSucceed hothers]
    exact rearranged_applyAll hperm graph
  exact Program.resolve_sameAnswer hsame (storedOnce_runAll hbuilt steps)
    (storedOnce_runAll hbuilt others) table call

/-- A root namespace with one namespace `Lib` in it. -/
def libraryGraph : ScopeGraph :=
  Command.runAll [.enterPath ["Lib"]] ScopeGraph.withScalars

/-- Declare a function `f` in the scope. -/
def overloadIn (scope : ScopeId) (parameters : List Parameter) : Addition :=
  .declare ⟨⟨"f", scope, .function, parameters, none⟩, none⟩

/-- Two overloads in the root namespace and one pulled in from `Lib`; all of them take a
single `int`. -/
def overloads : List Addition :=
  [overloadIn ScopeId.root [⟨Scalar.int.fingerprint, .byValue, false, false⟩],
    overloadIn ScopeId.root [⟨Scalar.int.fingerprint, .byValue, false, false⟩, .ellipsis],
    .pullIn ScopeId.root "f" ⟨1⟩,
    overloadIn ⟨1⟩ [⟨Scalar.int.fingerprint, .byValue, true, false⟩]]

/-- A call of `f` with an `int`, from the root namespace. -/
def overloadedCall : CallSite :=
  ⟨0, .named "f", ScopeId.root, [⟨Scalar.int.fingerprint, .rvalue⟩], ⟨0, 0⟩⟩

/-- The two orders answer differently, but only in the order of the tied candidates. -/
theorem resolve_overloads_reversed :
    libraryGraph.BuiltChecked ∧ AllSucceed overloads libraryGraph ∧
      let program : Program := ⟨Command.runAll (overloads.map command) libraryGraph, ⟨[], []⟩⟩
      let reversed : Program :=
        ⟨Command.runAll (overloads.reverse.map command) libraryGraph, ⟨[], []⟩⟩
      SameAnswer (program.resolve overloadedCall) (reversed.resolve overloadedCall) ∧
        program.resolve overloadedCall ≠ reversed.resolve overloadedCall := by
  have hbuilt : libraryGraph.BuiltChecked := ⟨_, by decide, Or.inr rfl⟩
  have hsucceed : AllSucceed overloads libraryGraph := by decide +kernel
  have hperm : overloads.Perm overloads.reverse := (List.reverse_perm overloads).symm
  refine ⟨hbuilt, hsucceed, ?_, by decide +kernel⟩
  exact (resolve_additions_perm hbuilt hsucceed hperm).2 ⟨[], []⟩ overloadedCall

end Addition
end CallResolution
