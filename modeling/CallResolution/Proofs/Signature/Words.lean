import Mathlib.Data.List.Forall2
import Mathlib.Tactic
import CallResolution.Signature.Basic

/-!
# What the words of a signature tell

The fingerprint of a signature is computed from its name, its scope and one word for each
position.  A word has the type in it, and the passing mode in its lowest two bits; an ellipsis
is the word zero.  For types that differ above the lowest two bits the word of a parameter
gives the parameter back, as far as overloads are told apart by it.

The word of a receiver is made in the same way and stands in front.  Nothing marks it as a
receiver: it is the word of a parameter that takes the class by value, or by reference to a
constant if the member is constant.  So the words do NOT tell a member from a non-member whose
first parameter is the receiver written out, and they tell everything else.
-/

namespace CallResolution

/-- Fingerprints are greater than three, and two of them differ above the lowest two bits. -/
structure SpacedTypes (types : List Fingerprint) : Prop where
  above_three : ∀ type ∈ types, 3 < type.bits
  apart : ∀ first ∈ types, ∀ second ∈ types, first ≠ second →
    first.bits >>> 2 ≠ second.bits >>> 2

/-! ## One position -/

namespace PassingMode

theorem code_le (mode : PassingMode) : mode.code ≤ 3 := by
  cases mode <;> decide

theorem code_shiftRight (mode : PassingMode) : mode.code >>> 2 = 0 := by
  cases mode <;> decide

theorem code_injective {first second : PassingMode} (hcode : first.code = second.code) :
    first = second := by
  cases first <;> cases second <;> simp_all [code]

end PassingMode

namespace Parameter

/-- Two parameters are both an ellipsis, or have the same type and passing mode.  Defaults are
not looked at, and neither is what an ellipsis keeps as its type. -/
def SameTaker (first second : Parameter) : Prop :=
  first.isEllipsis = second.isEllipsis ∧
    (first.isEllipsis = false → first.type = second.type ∧ first.mode = second.mode)

theorem SameTaker.symm {first second : Parameter} (hsame : first.SameTaker second) :
    second.SameTaker first := by
  obtain ⟨hkind, htaker⟩ := hsame
  refine ⟨hkind.symm, fun htyped => ?_⟩
  obtain ⟨htype, hmode⟩ := htaker (hkind.trans htyped)
  exact ⟨htype.symm, hmode.symm⟩

theorem forall₂_sameTaker_comm {first second : List Parameter} :
    List.Forall₂ SameTaker first second ↔ List.Forall₂ SameTaker second first :=
  ⟨fun hsame => (hsame.imp fun _ _ => SameTaker.symm).flip,
    fun hsame => (hsame.imp fun _ _ => SameTaker.symm).flip⟩

variable {types : List Fingerprint} (hspaced : SpacedTypes types)
include hspaced

/-- The word of a parameter with a type is not that of an ellipsis. -/
theorem word_ne_zero {parameter : Parameter} (htyped : parameter.isEllipsis = false)
    (hmem : parameter.type ∈ types) : parameter.word ≠ 0 := by
  intro hzero
  simp only [word, htyped, Bool.false_eq_true, if_false, UInt64.xor_eq_zero_iff] at hzero
  have habove := hspaced.above_three _ hmem
  rw [hzero] at habove
  exact absurd habove (UInt64.not_lt.mpr parameter.mode.code_le)

/-- The type is read off the upper bits, and then the mode off the lowest two. -/
theorem xor_code_eq_iff {first second : Fingerprint} (hfirst : first ∈ types)
    (hsecond : second ∈ types) {mode other : PassingMode} :
    first.bits ^^^ mode.code = second.bits ^^^ other.code ↔ first = second ∧ mode = other := by
  constructor
  · intro hwords
    have hupper : first.bits >>> 2 = second.bits >>> 2 := by
      have hshift := congrArg (fun word : UInt64 => word >>> 2) hwords
      simpa [UInt64.shiftRight_xor, PassingMode.code_shiftRight] using hshift
    have htype : first = second := by
      by_contra hne
      exact hspaced.apart first hfirst second hsecond hne hupper
    subst htype
    exact ⟨rfl, PassingMode.code_injective ((UInt64.xor_right_inj _).mp hwords)⟩
  · rintro ⟨rfl, rfl⟩
    rfl

theorem word_eq_iff {first second : Parameter}
    (hfirst : first.isEllipsis = false → first.type ∈ types)
    (hsecond : second.isEllipsis = false → second.type ∈ types) :
    first.word = second.word ↔ first.SameTaker second := by
  unfold SameTaker
  cases hone : first.isEllipsis with
  | true =>
      have hzero : first.word = 0 := by rw [word, hone, if_pos rfl]
      cases htwo : second.isEllipsis with
      | true => simp [word, hone, htwo]
      | false => simpa [hzero] using (word_ne_zero hspaced htwo (hsecond htwo)).symm
  | false =>
      cases htwo : second.isEllipsis with
      | true =>
          have hzero : second.word = 0 := by rw [word, htwo, if_pos rfl]
          simpa [hzero] using word_ne_zero hspaced hone (hfirst hone)
      | false =>
          rw [word, word, hone, htwo]
          simpa using xor_code_eq_iff hspaced (hfirst hone) (hsecond htwo)

/-- The words of a list of parameters give the list back, position by position. -/
theorem map_word_eq_iff {first second : List Parameter}
    (hfirst : ∀ parameter ∈ first, parameter.isEllipsis = false → parameter.type ∈ types)
    (hsecond : ∀ parameter ∈ second, parameter.isEllipsis = false → parameter.type ∈ types) :
    first.map word = second.map word ↔ List.Forall₂ SameTaker first second := by
  induction first generalizing second with
  | nil => cases second <;> simp
  | cons parameter rest ih =>
      cases second with
      | nil => simp
      | cons other others =>
          obtain ⟨hparameter, hrest⟩ := List.forall_mem_cons.mp hfirst
          obtain ⟨hother, hothers⟩ := List.forall_mem_cons.mp hsecond
          rw [List.map_cons, List.map_cons, List.cons.injEq, List.forall₂_cons,
            word_eq_iff hspaced hparameter hother, ih hrest hothers]

end Parameter

/-! ## Receivers -/

namespace Receiver

/-- The parameter that has the word of this receiver. -/
def asParameter (receiver : Receiver) : Parameter where
  type := receiver.type
  mode := if receiver.isConst then .constReference else .byValue
  hasDefault := false
  isEllipsis := false

theorem word_asParameter (receiver : Receiver) : receiver.asParameter.word = receiver.word := by
  unfold asParameter Parameter.word word
  cases receiver.isConst <;> rfl

theorem sameTaker_asParameter_iff {first second : Receiver} :
    first.asParameter.SameTaker second.asParameter ↔ first = second := by
  obtain ⟨type, isConst⟩ := first
  obtain ⟨otherType, otherConst⟩ := second
  cases isConst <;> cases otherConst <;> simp [Parameter.SameTaker, asParameter]

end Receiver

namespace Signature

/-- The types that a signature names: that of its receiver and those of its parameters, an
ellipsis left out. -/
def types (signature : Signature) : List Fingerprint :=
  (signature.receiver.map (·.type)).toList ++
    (signature.parameters.filter (!·.isEllipsis)).map (·.type)

/-- All positions as parameters, a receiver written out in front. -/
def positions (signature : Signature) : List Parameter :=
  (signature.receiver.map Receiver.asParameter).toList ++ signature.parameters

theorem words_eq_map_word (signature : Signature) :
    signature.words = signature.positions.map Parameter.word := by
  unfold words positions
  cases signature.receiver with
  | none => rfl
  | some receiver => simp [Receiver.word_asParameter]

theorem type_mem_types_of_positions {signature : Signature} {parameter : Parameter}
    (hmem : parameter ∈ signature.positions) (htyped : parameter.isEllipsis = false) :
    parameter.type ∈ signature.types := by
  rcases List.mem_append.mp hmem with hreceiver | hparameter
  · obtain ⟨receiver, hsome, rfl⟩ := Option.map_eq_some_iff.mp (Option.mem_toList.mp hreceiver)
    exact List.mem_append_left _ (by simp [hsome, Receiver.asParameter])
  · have hkept : parameter ∈ signature.parameters.filter (!·.isEllipsis) :=
      List.mem_filter.mpr ⟨hparameter, by simp [htyped]⟩
    exact List.mem_append_right _ (List.mem_map_of_mem hkept)

/-- Two signatures have the same receiver, or both have none, and the same parameters. -/
def SameTakers (first second : Signature) : Prop :=
  first.receiver = second.receiver ∧
    List.Forall₂ Parameter.SameTaker first.parameters second.parameters

/-- The first signature is no member, the second is one, and the parameters of the first are
the receiver of the second written out and its parameters. -/
def WritesOut (free member : Signature) : Prop :=
  free.receiver = none ∧ ∃ receiver, member.receiver = some receiver ∧
    List.Forall₂ Parameter.SameTaker free.parameters (receiver.asParameter :: member.parameters)

theorem not_writesOut_of_isMember_eq {first second : Signature}
    (hkind : first.isMember = second.isMember) : ¬ first.WritesOut second := by
  rintro ⟨hnone, receiver, hsome, _⟩
  simp [isMember, hnone, hsome] at hkind

/-- Signatures with the same words are the same up to defaults, or one is the other with its
receiver written out. -/
theorem words_eq_iff {types : List Fingerprint} (hspaced : SpacedTypes types)
    {first second : Signature} (hfirst : first.types ⊆ types) (hsecond : second.types ⊆ types) :
    first.words = second.words ↔
      first.SameTakers second ∨ first.WritesOut second ∨ second.WritesOut first := by
  have hpositions : first.words = second.words ↔
      List.Forall₂ Parameter.SameTaker first.positions second.positions := by
    rw [words_eq_map_word, words_eq_map_word]
    exact Parameter.map_word_eq_iff hspaced
      (fun _ hmem htyped => hfirst (type_mem_types_of_positions hmem htyped))
      (fun _ hmem htyped => hsecond (type_mem_types_of_positions hmem htyped))
  rw [hpositions]
  unfold positions SameTakers WritesOut
  cases hone : first.receiver with
  | none =>
      cases htwo : second.receiver with
      | none => simp
      | some receiver => simp
  | some receiver =>
      cases htwo : second.receiver with
      | none =>
          rw [Parameter.forall₂_sameTaker_comm]
          simp
      | some other => simp [List.forall₂_cons, Receiver.sameTaker_asParameter_iff]

end Signature
end CallResolution
