import Mathlib.Tactic
import CallResolution.Signature.Basic

/-!
# One changed word

The words of a signature are mixed one after the other: the hash is multiplied by the separator
and the marked word is added, modulo `2 ^ 64`.  The separator has an inverse, so no step loses
anything that came before, and two lists that differ at one place have different hashes,
whatever the hash starts with and however long the lists are.

Markers play no part in this: it is enough that both lists have the same one at each place.
Lists that differ at two places or more may have the same hash.
-/

namespace CallResolution

/-- Two lists of one length that differ at one place. -/
def DifferOnce (first second : List UInt64) : Prop :=
  first.length = second.length ∧
    ∃ place < first.length, first[place]? ≠ second[place]? ∧
      ∀ other < first.length, other ≠ place → first[other]? = second[other]?

instance (first second : List UInt64) : Decidable (DifferOnce first second) :=
  inferInstanceAs (Decidable (_ ∧ _))

theorem differOnce_cons_iff {word other : UInt64} {first second : List UInt64} :
    DifferOnce (word :: first) (other :: second) ↔
      (word ≠ other ∧ first = second) ∨ (word = other ∧ DifferOnce first second) := by
  constructor
  · rintro ⟨hlength, place, hplace, hdiffer, hsame⟩
    rw [List.length_cons, List.length_cons, Nat.succ_inj] at hlength
    cases place with
    | zero =>
        left
        refine ⟨by simpa using hdiffer, List.ext_getElem? fun index => ?_⟩
        by_cases hindex : index < first.length
        · exact hsame (index + 1) (Nat.succ_lt_succ hindex) (Nat.succ_ne_zero index)
        · rw [List.getElem?_eq_none (Nat.le_of_not_lt hindex),
            List.getElem?_eq_none (hlength ▸ Nat.le_of_not_lt hindex)]
    | succ place =>
        right
        refine ⟨?_, hlength, place, Nat.lt_of_succ_lt_succ hplace, hdiffer, ?_⟩
        · simpa using hsame 0 (Nat.zero_lt_succ _) (Nat.zero_ne_add_one place)
        · intro index hindex hne
          exact hsame (index + 1) (Nat.succ_lt_succ hindex) (by omega)
  · rintro (⟨hne, rfl⟩ | ⟨rfl, hlength, place, hplace, hdiffer, hsame⟩)
    · refine ⟨rfl, 0, Nat.zero_lt_succ _, by simpa using hne, ?_⟩
      intro index _ hindex
      obtain ⟨index, rfl⟩ := Nat.exists_eq_succ_of_ne_zero hindex
      rfl
    · refine ⟨congrArg (· + 1) hlength, place + 1, Nat.succ_lt_succ hplace, hdiffer, ?_⟩
      intro index hindex hne
      cases index with
      | zero => rfl
      | succ index => exact hsame index (Nat.lt_of_succ_lt_succ hindex) (by omega)

namespace Fingerprint

/-- The inverse of the separator modulo `2 ^ 64`. -/
def separatorInverse : UInt64 := 0xd3f20f0a40208825

theorem separator_mul_inverse : separator * separatorInverse = 1 := by
  decide

theorem mul_separator_inj {first second : UInt64} :
    first * separator = second * separator ↔ first = second := by
  constructor
  · intro hsame
    calc first = first * separator * separatorInverse := by
          rw [UInt64.mul_assoc, separator_mul_inverse, UInt64.mul_one]
      _ = second * separator * separatorInverse := by rw [hsame]
      _ = second := by rw [UInt64.mul_assoc, separator_mul_inverse, UInt64.mul_one]
  · rintro rfl
    rfl

/-- Mixing further words in keeps different hashes apart. -/
theorem mixWords_hash_inj {position : Nat} {first second : UInt64} {words : List UInt64} :
    mixWords position first words = mixWords position second words ↔ first = second := by
  induction words generalizing position first second with
  | nil => rfl
  | cons word rest ih => rw [mixWords, mixWords, ih, UInt64.add_left_inj, mul_separator_inj]

/-- A changed word changes the hash at its step, and no later step takes that back. -/
theorem mixWords_ne_of_differOnce {first second : List UInt64}
    (hdiffer : DifferOnce first second) (position : Nat) (hash : UInt64) :
    mixWords position hash first ≠ mixWords position hash second := by
  induction first generalizing second position hash with
  | nil =>
      obtain ⟨_, place, hplace, _⟩ := hdiffer
      exact absurd hplace (Nat.not_lt_zero place)
  | cons word rest ih =>
      cases second with
      | nil => cases hdiffer.1
      | cons other others =>
          rw [mixWords, mixWords]
          rcases differOnce_cons_iff.mp hdiffer with ⟨hword, rfl⟩ | ⟨rfl, hrest⟩
          -- The words differ here: the hashes part at this step, and the rest is the same.
          · rw [Ne, mixWords_hash_inj, UInt64.add_right_inj, UInt64.xor_right_inj]
            exact hword
          · exact ih hrest _ _

theorem ofSignature_ne_of_differOnce {first second : List UInt64}
    (hdiffer : DifferOnce first second) (name : String) (seed : UInt64) :
    ofSignature name seed first ≠ ofSignature name seed second := by
  intro hsame
  exact mixWords_ne_of_differOnce hdiffer 0 _ (Fingerprint.mk.inj hsame)

end Fingerprint

namespace Signature

variable {first second : Signature} (hreceiver : first.receiver = second.receiver)
  (hdiffer : DifferOnce (first.parameters.map Parameter.word)
    (second.parameters.map Parameter.word))
include hreceiver hdiffer

/-- The word of a receiver stands in front of both lists. -/
theorem differOnce_words : DifferOnce first.words second.words := by
  unfold words
  rw [hreceiver]
  cases second.receiver with
  | none => exact hdiffer
  | some receiver => exact differOnce_cons_iff.mpr (Or.inr ⟨rfl, hdiffer⟩)

theorem fingerprint_ne_of_differOnce (hname : first.name = second.name)
    (horigin : first.origin = second.origin) : first.fingerprint ≠ second.fingerprint := by
  rw [fingerprint, fingerprint, hname, horigin]
  exact Fingerprint.ofSignature_ne_of_differOnce (differOnce_words hreceiver hdiffer) _ _

end Signature
end CallResolution
