import Mathlib.Tactic
import CallResolution.Proofs.Scope.Indexing
import CallResolution.Proofs.Signature.Words

/-!
# Declarations refused for their words

A declaration is refused as a duplicate if its fingerprint is taken.  Fingerprints may agree by
accident, of which nothing is said here.  They agree without fail if name, scope and words do,
and then the second declaration is refused whatever it says.

In a namespace or a block that only happens to a declaration that repeats another one up to its
defaults.  In the scope of a class it also happens between a member and a friend: the friend
may not have the receiver of the member as its first parameter.
-/

namespace CallResolution
namespace ScopeGraph

section Stored

variable {accepts : Signature → Prop} {graph : ScopeGraph} (hstored : StoredOnce accepts graph)
include hstored

theorem StoredOnce.holds_origin {signature : Signature} (hmem : signature ∈ graph.stored) :
    graph.holds signature.origin = true := by
  have hdeclared : signature ∈ graph.declaredAs signature.origin signature.name :=
    hstored.mem_declaredAs_iff_mem_stored.mpr ⟨hmem, rfl, rfl⟩
  obtain ⟨contents, hcontents, _⟩ := mem_declaredAs_iff.mp hdeclared
  rw [← Bool.not_eq_false, ← contents?_eq_none_iff, hcontents]
  exact Option.some_ne_none contents

/-- A declaration that shares its name, scope and words with a stored one is a duplicate. -/
theorem StoredOnce.perform_declareAsIs_of_words {first second : Signature}
    (hmem : first ∈ graph.stored) (hname : first.name = second.name)
    (horigin : first.origin = second.origin) (hwords : first.words = second.words)
    (hfits : graph.FitsMember second) (associated : Option ScopeId) :
    (Registration.declareAsIs ⟨second, associated⟩).perform graph =
      (.error (.duplicateSignature (graph.signatureText second)), graph) := by
  have hheld : graph.holds second.origin = true := horigin ▸ hstored.holds_origin hmem
  have hfingerprint : first.fingerprint = second.fingerprint := by
    rw [Signature.fingerprint, Signature.fingerprint, hname, horigin, hwords]
  have htaken : graph.isIndexed second.fingerprint = true := by
    rw [hstored.isIndexed_iff, ← hfingerprint]
    exact List.mem_map_of_mem hmem
  rw [Registration.perform_declareAsIs, Declaration.refusal]
  simp [hheld, hfits, htaken]

theorem StoredOnce.fitsMember (hindexed : graph.Indexed) {signature : Signature}
    (hmem : signature ∈ graph.stored) : graph.FitsMember signature :=
  hindexed.members signature.origin signature.name signature
    (hstored.mem_declaredAs_iff_mem_stored.mpr ⟨hmem, rfl, rfl⟩)

end Stored

/-- Members belong into the scopes of classes only. -/
theorem FitsMember.isMember_eq_false {graph : ScopeGraph} {signature : Signature}
    (hfits : graph.FitsMember signature)
    (hplain : ∀ type, graph.kind? signature.origin ≠ some (.classBody type)) :
    signature.isMember = false := by
  rw [Signature.isMember, Option.isSome_eq_false_iff, Option.isNone_iff_eq_none,
    Option.eq_none_iff_forall_ne_some]
  intro receiver hreceiver
  exact hplain receiver.type (hfits receiver hreceiver)

end ScopeGraph

open ScopeGraph

/-- When two signatures of one name in one scope have the same words, for types that are
spaced.  They are the same up to defaults, or one is a member and the other has its receiver
written out as the first parameter.  So the words tell members from each other and non-members
from each other.  A declaration with the words of a stored one is refused as a duplicate; in a
namespace or a block it does repeat the stored one. -/
theorem equal_words_iff_repeated_or_written_out {types : List Fingerprint}
    (hspaced : SpacedTypes types) {first second : Signature} (hname : first.name = second.name)
    (horigin : first.origin = second.origin) (hfirst : first.types ⊆ types)
    (hsecond : second.types ⊆ types) :
    (first.words = second.words ↔
      first.SameTakers second ∨ first.WritesOut second ∨ second.WritesOut first) ∧
    (first.isMember = second.isMember →
      (first.words = second.words ↔ first.SameTakers second)) ∧
    ∀ graph : ScopeGraph, graph.Built → first ∈ graph.stored → graph.FitsMember second →
      first.words = second.words →
        (∀ associated, (Registration.declareAsIs ⟨second, associated⟩).perform graph =
          (.error (.duplicateSignature (graph.signatureText second)), graph)) ∧
        ((∀ type, graph.kind? second.origin ≠ some (.classBody type)) →
          first.SameTakers second) := by
  have hwords := Signature.words_eq_iff hspaced hfirst hsecond
  have hsame : first.isMember = second.isMember →
      (first.words = second.words ↔ first.SameTakers second) := by
    intro hkind
    simp [hwords, Signature.not_writesOut_of_isMember_eq hkind,
      Signature.not_writesOut_of_isMember_eq hkind.symm]
  refine ⟨hwords, hsame, fun graph hbuilt hmem hfits hequal => ⟨?_, ?_⟩⟩
  · exact hbuilt.storedOnce.perform_declareAsIs_of_words hmem hname horigin hequal hfits
  · intro hplain
    have hfree := hfits.isMember_eq_false hplain
    have hstoredFree := (hbuilt.storedOnce.fitsMember hbuilt.indexed hmem).isMember_eq_false
      (horigin ▸ hplain)
    exact (hsame (hstoredFree.trans hfree.symm)).mp hequal

/-- A parameter of the class `geo::Vec`. -/
def vectorTaker (mode : PassingMode) : Parameter :=
  ⟨.ofName "geo::Vec", mode, false, false⟩

/-- A member `operator-` of the class that takes another vector by value. -/
def memberDifference (isConst : Bool) : Signature :=
  ⟨"operator-", ⟨2⟩, .operator, [vectorTaker .byValue], some ⟨.ofName "geo::Vec", isConst⟩⟩

/-- A friend `operator-` of the class that takes two vectors, the second by value. -/
def friendDifference (mode : PassingMode) : Signature :=
  ⟨"operator-", ⟨2⟩, .operator, [vectorTaker mode, vectorTaker .byValue], none⟩

/-- The class in its namespace, with the member. -/
def vectorDifference (isConst : Bool) : ScopeGraph :=
  Command.runAll
    [.enterPath ["geo"], .newClass ⟨1⟩ "Vec" [], .declare ⟨memberDifference isConst, none⟩] empty

theorem spacedTypes_vector : SpacedTypes [.ofName "geo::Vec"] :=
  ⟨by decide +kernel, by decide +kernel⟩

/-- A friend that takes a reference to a constant is refused beside a constant member.  One that
takes a reference to a variable has words of its own. -/
theorem friendDifference_written_out :
    (memberDifference true).words = (friendDifference .constReference).words ∧
      (Registration.declareAsIs ⟨friendDifference .constReference, some ⟨1⟩⟩).perform
          (vectorDifference true) =
        (.error (.duplicateSignature
          ((vectorDifference true).signatureText (friendDifference .constReference))),
          vectorDifference true) ∧
      (memberDifference true).words ≠ (friendDifference .mutableReference).words := by
  have hbuilt : (vectorDifference true).Built := ⟨_, Or.inl rfl⟩
  obtain ⟨hiff, _, hrefused⟩ := equal_words_iff_repeated_or_written_out spacedTypes_vector
    (show (memberDifference true).name = (friendDifference .constReference).name from rfl) rfl
    (by decide +kernel) (by decide +kernel)
  obtain ⟨hother, _, _⟩ := equal_words_iff_repeated_or_written_out spacedTypes_vector
    (show (memberDifference true).name = (friendDifference .mutableReference).name from rfl) rfl
    (by decide +kernel) (by decide +kernel)
  have hwords : (memberDifference true).words = (friendDifference .constReference).words := by
    refine hiff.mpr (Or.inr (Or.inr ⟨rfl, _, rfl, ?_⟩))
    simp [friendDifference, memberDifference, vectorTaker, Receiver.asParameter,
      Parameter.SameTaker]
  obtain ⟨hduplicate, _⟩ := hrefused (vectorDifference true) hbuilt (by decide +kernel)
    (by decide +kernel) hwords
  refine ⟨hwords, hduplicate (some ⟨1⟩), fun hequal => ?_⟩
  rcases hother.mp hequal with ⟨hreceiver, _⟩ | ⟨hnone, _⟩ | ⟨_, receiver, hsome, htakers⟩
  · cases hreceiver
  · cases hnone
  · obtain rfl := Option.some.inj hsome
    have hmode := ((List.forall₂_cons.mp htakers).1.2 rfl).2
    cases hmode

/-- A member that is not constant and a friend that takes the class by value: both are
well-formed and different functions, and the friend is refused as a duplicate. -/
theorem friendDifference_refused_beside_member :
    (memberDifference false).check = .ok () ∧ (friendDifference .byValue).check = .ok () ∧
      (memberDifference false).name = (friendDifference .byValue).name ∧
      (memberDifference false).origin = (friendDifference .byValue).origin ∧
      SpacedTypes ((memberDifference false).types ++ (friendDifference .byValue).types) ∧
      (memberDifference false).words = (friendDifference .byValue).words ∧
      (memberDifference false).isMember ≠ (friendDifference .byValue).isMember ∧
      (vectorDifference false).Built ∧ memberDifference false ∈ (vectorDifference false).stored ∧
      ((Registration.declare ⟨friendDifference .byValue, some ⟨1⟩⟩).perform
        (vectorDifference false)).1 =
          .error (.duplicateSignature "geo::Vec::operator-(geo::Vec, geo::Vec)") := by
  refine ⟨rfl, rfl, rfl, rfl, ⟨by decide +kernel, by decide +kernel⟩, rfl, by decide,
    ⟨_, Or.inl rfl⟩, by decide +kernel, by decide +kernel⟩

end CallResolution
