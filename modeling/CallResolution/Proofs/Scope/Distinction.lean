import Mathlib.Tactic
import CallResolution.Proofs.Scope.Confinement
import CallResolution.Proofs.Signature.Mixing

/-!
# Declarations that do not get in each other's way

A declaration is refused as a duplicate because of a fingerprint that is taken, and for no other
reason.  So a declaration with a fingerprint of its own changes nothing about how another one
is answered.

Overloads that differ in the word of one parameter always have fingerprints of their own.
-/

namespace CallResolution
namespace ScopeGraph

section Frame

variable {first second : ScopeGraph} (hframe : SameFrame first second)
include hframe

theorem SameFrame.signatureText_eq (signature : Signature) :
    first.signatureText signature = second.signatureText signature := by
  have hname : first.ownName? = second.ownName? := by
    funext scope
    rw [ownName?, ownName?, hframe.edges]
  have hqualify : first.qualify signature.origin signature.name =
      second.qualify signature.origin signature.name := by
    rw [qualify, qualify, pathNames, pathNames, hframe.enclosing_eq, hname]
  have hparameter : first.parameterText = second.parameterText := by
    funext parameter
    simp only [parameterText, typeText, registered?, hframe.types]
  rw [signatureText, signatureText, hqualify, hparameter]

/-- Graphs with the same frame refuse a declaration for the same reason, if its fingerprint is
taken in both or in neither. -/
theorem SameFrame.refusal_eq {declaration : Declaration}
    (hindexed : first.isIndexed declaration.signature.fingerprint =
      second.isIndexed declaration.signature.fingerprint) :
    declaration.refusal first = declaration.refusal second := by
  have hholds : first.holds = second.holds := funext hframe.holds_eq
  have hfits : first.FitsMember declaration.signature ↔
      second.FitsMember declaration.signature := by
    rw [FitsMember, FitsMember, hframe.kind]
  simp only [Declaration.refusal, hholds, hfits, hindexed, hframe.signatureText_eq]

end Frame

theorem isIndexed_withSignature (graph : ScopeGraph) (signature : Signature)
    (space : Option ScopeId) (fingerprint : Fingerprint) :
    (graph.withSignature signature space).isIndexed fingerprint =
      (graph.isIndexed fingerprint || signature.fingerprint == fingerprint) := by
  rw [isIndexed, index_withSignature, List.any_append, isIndexed]
  simp

end ScopeGraph

namespace Registration

theorem perform_declareAsIs_answer {declaration : Declaration} {first second : ScopeGraph}
    (hrefusal : declaration.refusal first = declaration.refusal second) :
    ((declareAsIs declaration).perform first).1 = ((declareAsIs declaration).perform second).1 := by
  rw [perform_declareAsIs, perform_declareAsIs, hrefusal]
  cases declaration.refusal second with
  | none => rfl
  | some error => rfl

/-- The answer to a declaration is not changed by an earlier one of another fingerprint. -/
theorem answer_of_fingerprint_ne (first second : Declaration)
    (hne : first.signature.fingerprint ≠ second.signature.fingerprint) (graph : ScopeGraph) :
    ((declareAsIs second).perform ((declareAsIs first).perform graph).2).1 =
      ((declareAsIs second).perform graph).1 := by
  rw [perform_declareAsIs first]
  cases first.refusal graph with
  | some error => rfl
  | none =>
      refine (perform_declareAsIs_answer ?_).symm
      apply (ScopeGraph.sameFrame_withSignature first.elsewhere).refusal_eq
      rw [ScopeGraph.isIndexed_withSignature, beq_eq_false_iff_ne.mpr hne, Bool.or_false]

end Registration

open Registration in
/-- Two lists of words that differ at one place are mixed into different hashes, whatever the
hash starts with, and so have different fingerprints under every name and in every scope.
Hence two signatures of one name, scope and receiver that differ in the word of one parameter
have different fingerprints, and declaring the one does not change how the declaration of the
other is answered. -/
theorem one_changed_word_changes_fingerprint :
    (∀ (start : UInt64) (first second : List UInt64), DifferOnce first second →
      Fingerprint.mixWords 0 start first ≠ Fingerprint.mixWords 0 start second) ∧
    (∀ (name : String) (seed : UInt64) (first second : List UInt64), DifferOnce first second →
      Fingerprint.ofSignature name seed first ≠ Fingerprint.ofSignature name seed second) ∧
    ∀ first second : Signature, first.name = second.name → first.origin = second.origin →
      first.receiver = second.receiver →
      DifferOnce (first.parameters.map Parameter.word) (second.parameters.map Parameter.word) →
        first.fingerprint ≠ second.fingerprint ∧
        ∀ (graph : ScopeGraph) (associated other : Option ScopeId),
          ((declareAsIs ⟨second, other⟩).perform
              ((declareAsIs ⟨first, associated⟩).perform graph).2).1 =
            ((declareAsIs ⟨second, other⟩).perform graph).1 := by
  refine ⟨fun start _ _ hdiffer => Fingerprint.mixWords_ne_of_differOnce hdiffer 0 start,
    fun name seed _ _ hdiffer => Fingerprint.ofSignature_ne_of_differOnce hdiffer name seed, ?_⟩
  intro first second hname horigin hreceiver hdiffer
  have hne := Signature.fingerprint_ne_of_differOnce hreceiver hdiffer hname horigin
  exact ⟨hne, fun graph associated other =>
    answer_of_fingerprint_ne ⟨first, associated⟩ ⟨second, other⟩ hne graph⟩

/-- A function with ten parameters, of which the ninth is passed in the given way. -/
def plotter (mode : PassingMode) : Signature where
  name := "plot"
  origin := .root
  kind := .function
  parameters :=
    List.replicate 8 ⟨.ofName "double", .byValue, false, false⟩ ++
      [⟨.ofName "double", mode, false, false⟩, .ellipsis]
  receiver := none

open Registration in
/-- The ninth place has no marker of its own in the table; a change there is seen all the same,
and both functions can be declared. -/
theorem plotter_told_apart :
    DifferOnce ((plotter .byValue).parameters.map Parameter.word)
        ((plotter .constReference).parameters.map Parameter.word) ∧
      (plotter .byValue).fingerprint ≠ (plotter .constReference).fingerprint ∧
      ((declareAsIs ⟨plotter .constReference, none⟩).perform
          ((declareAsIs ⟨plotter .byValue, none⟩).perform .empty).2).1 =
        .ok (plotter .constReference).fingerprint := by
  have hdiffer : DifferOnce ((plotter .byValue).parameters.map Parameter.word)
      ((plotter .constReference).parameters.map Parameter.word) := by
    decide +kernel
  obtain ⟨_, _, hsignatures⟩ := one_changed_word_changes_fingerprint
  obtain ⟨hne, hanswer⟩ :=
    hsignatures (plotter .byValue) (plotter .constReference) rfl rfl rfl hdiffer
  refine ⟨hdiffer, hne, ?_⟩
  rw [hanswer]
  decide +kernel

end CallResolution
