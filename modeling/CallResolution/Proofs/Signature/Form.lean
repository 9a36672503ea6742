import Mathlib.Tactic
import CallResolution.Proofs.Traversal
import CallResolution.Signature.Basic

/-!
# The form of a parameter list

The check of a parameter list goes through it once, with a flag for a default seen before.
It passes exactly if the list consists of required parameters, then defaulted ones, then at
most one ellipsis.

So the number of required parameters, which the arity test counts, is also the index of the
first defaulted one: a call with enough arguments leaves out no parameter without a default.
This is NOT so for a list that was never checked.
-/

namespace CallResolution

/-- Required parameters, then defaulted ones, then at most one ellipsis, whose own default
is not looked at. -/
structure ParameterForm (parameters required defaulted tail : List Parameter) : Prop where
  parts_eq : parameters = required ++ defaulted ++ tail
  of_required : ∀ parameter ∈ required,
    parameter.isEllipsis = false ∧ parameter.hasDefault = false
  of_defaulted : ∀ parameter ∈ defaulted,
    parameter.isEllipsis = false ∧ parameter.hasDefault = true
  of_tail : ∀ parameter ∈ tail, parameter.isEllipsis = true
  length_tail : tail.length ≤ 1

namespace ParameterForm

theorem nil : ParameterForm [] [] [] [] :=
  ⟨rfl, by simp, by simp, by simp, by simp⟩

variable {parameter : Parameter} {parameters required defaulted tail : List Parameter}

theorem ellipsis (hellipsis : parameter.isEllipsis = true) :
    ParameterForm [parameter] [] [] [parameter] :=
  ⟨rfl, by simp, by simp, by simpa using hellipsis, by simp⟩

theorem cons_required_iff :
    ParameterForm (parameter :: parameters) (parameter :: required) defaulted tail ↔
      (parameter.isEllipsis = false ∧ parameter.hasDefault = false) ∧
        ParameterForm parameters required defaulted tail := by
  constructor
  · rintro ⟨hparts, hrequired, hdefaulted, htail, hlength⟩
    obtain ⟨hfirst, hrest⟩ := List.forall_mem_cons.mp hrequired
    exact ⟨hfirst, (List.cons.inj hparts).2, hrest, hdefaulted, htail, hlength⟩
  · rintro ⟨hfirst, hform⟩
    exact ⟨congrArg (parameter :: ·) hform.parts_eq,
      List.forall_mem_cons.mpr ⟨hfirst, hform.of_required⟩, hform.of_defaulted, hform.of_tail,
      hform.length_tail⟩

theorem cons_defaulted_iff :
    ParameterForm (parameter :: parameters) [] (parameter :: defaulted) tail ↔
      (parameter.isEllipsis = false ∧ parameter.hasDefault = true) ∧
        ParameterForm parameters [] defaulted tail := by
  constructor
  · rintro ⟨hparts, hrequired, hdefaulted, htail, hlength⟩
    obtain ⟨hfirst, hrest⟩ := List.forall_mem_cons.mp hdefaulted
    exact ⟨hfirst, (List.cons.inj hparts).2, hrequired, hrest, htail, hlength⟩
  · rintro ⟨hfirst, hform⟩
    exact ⟨congrArg (parameter :: ·) hform.parts_eq, hform.of_required,
      List.forall_mem_cons.mpr ⟨hfirst, hform.of_defaulted⟩, hform.of_tail, hform.length_tail⟩

/-- A list that begins with its tail is an ellipsis and nothing more. -/
theorem cons_tail_iff :
    ParameterForm (parameter :: parameters) [] [] tail ↔
      parameter.isEllipsis = true ∧ parameters = [] ∧ tail = [parameter] := by
  constructor
  · rintro ⟨rfl, _, _, htail, hlength⟩
    have hrest : parameters = [] := by simpa using hlength
    subst hrest
    exact ⟨htail parameter List.mem_cons_self, rfl, rfl⟩
  · rintro ⟨hellipsis, rfl, rfl⟩
    exact ellipsis hellipsis

end ParameterForm

namespace Signature

/-! ## The check -/

theorem checkParameters_cons_eq_ok_iff {name : String} {position : Nat} {seen : Bool}
    {parameter : Parameter} {rest : List Parameter} :
    checkParameters name position seen (parameter :: rest) = .ok () ↔
      (parameter.isEllipsis = true ∧ rest = []) ∨
        ((parameter.isEllipsis = false ∧ parameter.hasDefault = true) ∧
          checkParameters name (position + 1) true rest = .ok ()) ∨
        ((parameter.isEllipsis = false ∧ parameter.hasDefault = false) ∧ seen = false ∧
          checkParameters name (position + 1) false rest = .ok ()) := by
  rw [checkParameters]
  cases parameter.isEllipsis with
  | true =>
      cases rest with
      | nil => simp
      | cons next rest => cases (next :: rest).any (·.isEllipsis) <;> simp
  | false =>
      cases parameter.hasDefault with
      | true => simp
      | false => cases seen <;> simp

/-- The check passes exactly on lists of the form.  After a default was seen, no required
parameter may come. -/
theorem checkParameters_eq_ok_iff {name : String} {position : Nat} {seen : Bool}
    {parameters : List Parameter} :
    checkParameters name position seen parameters = .ok () ↔
      ∃ required defaulted tail, ParameterForm parameters required defaulted tail ∧
        (seen = true → required = []) := by
  induction parameters generalizing position seen with
  | nil => exact ⟨fun _ => ⟨[], [], [], .nil, fun _ => rfl⟩, fun _ => rfl⟩
  | cons parameter rest ih =>
      rw [checkParameters_cons_eq_ok_iff, ih, ih]
      constructor
      · rintro (⟨hellipsis, rfl⟩ | ⟨hfirst, _, defaulted, tail, hform, hnone⟩ |
          ⟨hfirst, rfl, required, defaulted, tail, hform, _⟩)
        · exact ⟨[], [], [parameter], .ellipsis hellipsis, fun _ => rfl⟩
        · obtain rfl := hnone rfl
          exact ⟨[], parameter :: defaulted, tail,
            ParameterForm.cons_defaulted_iff.mpr ⟨hfirst, hform⟩, fun _ => rfl⟩
        · exact ⟨parameter :: required, defaulted, tail,
            ParameterForm.cons_required_iff.mpr ⟨hfirst, hform⟩, fun hseen => by cases hseen⟩
      · rintro ⟨required, defaulted, tail, hform, hnone⟩
        -- The first parameter is the first of the first part that is not empty.
        cases required with
        | cons first required =>
            obtain rfl : parameter = first := (List.cons.inj hform.parts_eq).1
            obtain ⟨hfirst, hform⟩ := ParameterForm.cons_required_iff.mp hform
            have hseen : seen = false := by
              by_contra hseen
              cases hnone (Bool.not_eq_false _ |>.mp hseen)
            exact .inr (.inr ⟨hfirst, hseen, required, defaulted, tail, hform, by simp⟩)
        | nil =>
            cases defaulted with
            | cons first defaulted =>
                obtain rfl : parameter = first := (List.cons.inj hform.parts_eq).1
                obtain ⟨hfirst, hform⟩ := ParameterForm.cons_defaulted_iff.mp hform
                exact .inr (.inl ⟨hfirst, [], defaulted, tail, hform, fun _ => rfl⟩)
            | nil =>
                obtain ⟨hellipsis, hrest, _⟩ := ParameterForm.cons_tail_iff.mp hform
                exact .inl ⟨hellipsis, hrest⟩

theorem exists_form_of_check {signature : Signature} (hcheck : signature.check = .ok ()) :
    ∃ required defaulted tail,
      ParameterForm signature.parameters required defaulted tail := by
  obtain ⟨_, hparameters, _⟩ := Traversal.bind_eq_ok_iff.mp hcheck
  obtain ⟨required, defaulted, tail, hform, _⟩ := checkParameters_eq_ok_iff.mp hparameters
  exact ⟨required, defaulted, tail, hform⟩

end Signature

/-! ## The counts -/

namespace ParameterForm

variable {signature : Signature} {required defaulted tail : List Parameter}
  (hform : ParameterForm signature.parameters required defaulted tail)
include hform

theorem isVariadic_eq : signature.isVariadic = !tail.isEmpty := by
  rw [Signature.isVariadic, hform.parts_eq]
  match tail, hform.of_tail, hform.length_tail with
  | [], _, _ =>
      rw [List.append_nil]
      cases hlast : (required ++ defaulted).getLast? with
      | none => rfl
      | some last =>
          rcases List.mem_append.mp (List.mem_of_getLast? hlast) with hmem | hmem
          · exact (hform.of_required last hmem).1
          · exact (hform.of_defaulted last hmem).1
  | [last], htail, _ => simpa using htail last List.mem_cons_self

theorem fixedParameters_eq : signature.fixedParameters = required ++ defaulted := by
  rw [Signature.fixedParameters, hform.isVariadic_eq, hform.parts_eq]
  match tail, hform.length_tail with
  | [], _ => simp
  | [_], _ => simp

theorem leastCount_eq : signature.leastCount = required.length := by
  have hrequired : required.countP (fun parameter => !parameter.hasDefault) =
      required.length := by
    rw [List.countP_eq_length]
    intro parameter hmem
    simp [hform.of_required parameter hmem]
  have hdefaulted : defaulted.countP (fun parameter => !parameter.hasDefault) = 0 := by
    rw [List.countP_eq_zero]
    intro parameter hmem
    simp [hform.of_defaulted parameter hmem]
  rw [Signature.leastCount, hform.fixedParameters_eq, List.countP_append, hrequired, hdefaulted,
    Nat.add_zero]

end ParameterForm

/-- A call with enough arguments leaves out only parameters that have a default. -/
theorem Signature.hasDefault_of_mem_drop {signature : Signature} {count : Nat}
    (hcheck : signature.check = .ok ()) (hcount : signature.leastCount ≤ count) :
    ∀ parameter ∈ signature.fixedParameters.drop count, parameter.hasDefault = true := by
  obtain ⟨required, defaulted, tail, hform⟩ := exists_form_of_check hcheck
  intro parameter hmem
  rw [hform.leastCount_eq] at hcount
  rw [hform.fixedParameters_eq, List.drop_append, List.drop_eq_nil_of_le hcount,
    List.nil_append] at hmem
  exact (hform.of_defaulted parameter (List.mem_of_mem_drop hmem)).2

end CallResolution
