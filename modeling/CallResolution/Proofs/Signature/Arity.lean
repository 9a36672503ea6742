import Mathlib.Order.Interval.Set.Basic
import Mathlib.Tactic
import CallResolution.Proofs.Signature.Form

/-!
# Counts and places

How many arguments a signature admits is computed from two numbers: the parameters without a
default, counted wherever they stand, and the length of the parameter list.  A call fills
parameters by place: it leaves out those behind its last argument.

For a signature that passed its check the two agree.  A count is admitted exactly if every
parameter left out has a default and no argument is left over.
-/

namespace CallResolution

namespace ParameterForm

variable {signature : Signature} {required defaulted tail : List Parameter}
  (hform : ParameterForm signature.parameters required defaulted tail)
include hform

/-- Below the least count stand the parameters that have no default. -/
theorem hasDefault_eq_false_of_lt {place : Nat} (hplace : place < signature.leastCount) :
    ∃ parameter, signature.fixedParameters[place]? = some parameter ∧
      parameter.hasDefault = false := by
  rw [hform.leastCount_eq] at hplace
  refine ⟨required[place], ?_, (hform.of_required _ (List.getElem_mem hplace)).2⟩
  rw [hform.fixedParameters_eq, List.getElem?_append_left hplace,
    List.getElem?_eq_getElem hplace]

/-- The least count is where the first default stands. -/
theorem leastCount_eq_findIdx :
    signature.leastCount = signature.fixedParameters.findIdx (·.hasDefault) := by
  have hrequired : required.findIdx (·.hasDefault) = required.length := by
    rw [List.findIdx_eq_length]
    intro parameter hmem
    exact (hform.of_required parameter hmem).2
  have hdefaulted : defaulted.findIdx (·.hasDefault) = 0 := by
    cases hparts : defaulted with
    | nil => rfl
    | cons first rest =>
        have hfirst := (hform.of_defaulted first (hparts ▸ List.mem_cons_self)).2
        rw [List.findIdx_cons, hfirst, cond_true]
  rw [hform.leastCount_eq, hform.fixedParameters_eq, List.findIdx_append, hrequired,
    if_neg (Nat.lt_irrefl _), hdefaulted, Nat.zero_add]

end ParameterForm

namespace Signature

variable {signature : Signature}

theorem admits_iff {count : Nat} :
    signature.admits count = true ↔
      signature.leastCount ≤ count ∧
        (count ≤ signature.parameters.length ∨ signature.isVariadic = true) := by
  unfold admits mostCount?
  cases signature.isVariadic <;> simp

theorem leastCount_le_length : signature.leastCount ≤ signature.parameters.length := by
  have hfixed : signature.fixedParameters.length ≤ signature.parameters.length := by
    unfold fixedParameters
    split
    · simp
    · exact Nat.le_refl _
  exact List.countP_le_length.trans hfixed

/-- Enough arguments are those that leave out only parameters with a default. -/
theorem leastCount_le_iff (hcheck : signature.check = .ok ()) {count : Nat} :
    signature.leastCount ≤ count ↔
      ∀ place parameter, count ≤ place → signature.fixedParameters[place]? = some parameter →
        parameter.hasDefault = true := by
  constructor
  · intro hcount place parameter hplace hfound
    apply hasDefault_of_mem_drop hcheck hcount
    rw [List.mem_iff_getElem?]
    exact ⟨place - count, by rw [List.getElem?_drop, Nat.add_sub_cancel' hplace, hfound]⟩
  · intro hdefaults
    -- With fewer arguments the parameter at this place would be left out, and it is required.
    by_contra hfew
    obtain ⟨required, defaulted, tail, hform⟩ := exists_form_of_check hcheck
    obtain ⟨parameter, hfound, hnone⟩ :=
      hform.hasDefault_eq_false_of_lt (Nat.lt_of_not_le hfew)
    rw [hdefaults count parameter (Nat.le_refl _) hfound] at hnone
    cases hnone

/-- For a signature that passed its check: a count is admitted exactly if every parameter at
this place or behind has a default, and there are that many parameters or an ellipsis.  The
admitted counts are those from the least to the greatest, without end if there is an ellipsis,
and the least is the place of the first default. -/
theorem admits_counts_by_place (hcheck : signature.check = .ok ()) :
    (∀ count, signature.admits count = true ↔
      (∀ place parameter, count ≤ place → signature.fixedParameters[place]? = some parameter →
        parameter.hasDefault = true) ∧
      (count ≤ signature.parameters.length ∨ signature.isVariadic = true)) ∧
    (∀ most, signature.mostCount? = some most →
      signature.leastCount ≤ most ∧
        {count | signature.admits count = true} = Set.Icc signature.leastCount most) ∧
    (signature.mostCount? = none →
      {count | signature.admits count = true} = Set.Ici signature.leastCount) ∧
    signature.leastCount = signature.fixedParameters.findIdx (·.hasDefault) := by
  refine ⟨fun count => ?_, ?_, ?_, ?_⟩
  · rw [admits_iff, leastCount_le_iff hcheck]
  · intro most hmost
    obtain ⟨hclosed, hlength⟩ : signature.isVariadic = false ∧
        signature.parameters.length = most := by
      simpa [mostCount?] using hmost
    refine ⟨hlength ▸ leastCount_le_length, Set.ext fun count => ?_⟩
    rw [Set.mem_ofPred_eq, admits_iff, hclosed, hlength, Set.mem_Icc]
    simp
  · intro hmost
    have hopen : signature.isVariadic = true := by simpa [mostCount?] using hmost
    refine Set.ext fun count => ?_
    rw [Set.mem_ofPred_eq, admits_iff, hopen, Set.mem_Ici]
    simp
  · obtain ⟨required, defaulted, tail, hform⟩ := exists_form_of_check hcheck
    exact hform.leastCount_eq_findIdx

/-- A function that takes a width, a precision or its default, and, if it is open, anything
behind. -/
def formatter (isOpen : Bool) : Signature where
  name := "format"
  origin := .root
  kind := .function
  parameters :=
    [⟨.ofName "int", .byValue, false, false⟩, ⟨.ofName "int", .byValue, true, false⟩] ++
      if isOpen then [.ellipsis] else []
  receiver := none

/-- The closed formatter takes one or two arguments, the open one takes one or more. -/
theorem formatter_admits :
    (formatter false).check = .ok () ∧ (formatter true).check = .ok () ∧
      {count | (formatter false).admits count = true} = Set.Icc 1 2 ∧
      {count | (formatter true).admits count = true} = Set.Ici 1 ∧
      (formatter true).leastCount = (formatter true).fixedParameters.findIdx (·.hasDefault) := by
  have hclosed : (formatter false).check = .ok () := rfl
  have hopen : (formatter true).check = .ok () := rfl
  obtain ⟨_, hbetween, _, _⟩ := admits_counts_by_place hclosed
  obtain ⟨_, _, habove, hfirst⟩ := admits_counts_by_place hopen
  exact ⟨hclosed, hopen, (hbetween 2 rfl).2, habove rfl, hfirst⟩

end Signature
end CallResolution
