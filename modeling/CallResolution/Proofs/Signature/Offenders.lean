import Mathlib.Tactic
import CallResolution.Proofs.Signature.Form

/-!
# Which parameter is blamed

A signature passes its check exactly if its parameters have the form and its receiver suits its
kind.  A check that fails names one offender: an ellipsis that is not last, a second ellipsis,
or a required parameter after a defaulted one.

A list may have several of these.  The check goes from the left, and the first ellipsis or
misplaced parameter decides.  So each answer is described by what is in the list AND by what
does not come before it.
-/

namespace CallResolution

namespace Parameter

/-- The parameter takes an argument and has no default. -/
def isRequired (parameter : Parameter) : Bool :=
  !parameter.isEllipsis && !parameter.hasDefault

/-- The parameter takes an argument and has a default.  The default of an ellipsis does not
count. -/
def isOptional (parameter : Parameter) : Bool :=
  !parameter.isEllipsis && parameter.hasDefault

end Parameter

/-- The list consists of required parameters, then defaulted ones, then at most one ellipsis. -/
def InForm (parameters : List Parameter) : Prop :=
  ∃ required defaulted tail, ParameterForm parameters required defaulted tail

/-- A required parameter stands at this place, and a defaulted one somewhere before it. -/
def RequiredLate (parameters : List Parameter) (place : Nat) : Prop :=
  (∃ parameter ∈ parameters[place]?, parameter.isRequired = true) ∧
    ∃ earlier ∈ parameters.take place, earlier.isOptional = true

/-- The first place of a required parameter after a defaulted one. -/
def FirstRequiredLate (parameters : List Parameter) (place : Nat) : Prop :=
  RequiredLate parameters place ∧ ∀ earlier < place, ¬ RequiredLate parameters earlier

/-- An ellipsis stands at this place and nowhere else. -/
def OnlyEllipsis (parameters : List Parameter) (place : Nat) : Prop :=
  ∀ other, (∃ parameter ∈ parameters[other]?, parameter.isEllipsis = true) ↔ other = place

/-- Wherever a required parameter comes after a defaulted one, an ellipsis came before. -/
def EllipsisBeforeLate (parameters : List Parameter) : Prop :=
  ∀ place, RequiredLate parameters place →
    ∃ earlier ∈ parameters.take place, earlier.isEllipsis = true

namespace SignatureDefect

/-- What has to be true of a parameter list for a defect to be reported.  A parameter list
has no part in what is wrong with a receiver. -/
def Blames (parameters : List Parameter) : SignatureDefect → Prop
  | .ellipsisNotLast _ place =>
      OnlyEllipsis parameters place ∧ place + 1 < parameters.length ∧
        EllipsisBeforeLate parameters
  | .multipleEllipsis _ =>
      2 ≤ parameters.countP (·.isEllipsis) ∧ EllipsisBeforeLate parameters
  | .defaultsNotTrailing _ place =>
      FirstRequiredLate parameters place ∧
        ∀ earlier ∈ parameters.take place, earlier.isEllipsis = false
  | .missingReceiver _ => False
  | .unexpectedReceiver _ => False

/-- The name of the signature that has the defect. -/
def name : SignatureDefect → String
  | .ellipsisNotLast name _ => name
  | .multipleEllipsis name => name
  | .defaultsNotTrailing name _ => name
  | .missingReceiver name => name
  | .unexpectedReceiver name => name

/-- A defect is one of a kind with a given name if it has the name and is of the kind. -/
theorem error_eq_iff_of_name (make : String → SignatureDefect)
    (hname : ∀ name, (make name).name = name) {name : String} {defect : SignatureDefect} :
    (Except.error (make name) : Except SignatureDefect Unit) = .error defect ↔
      defect.name = name ∧ defect = make defect.name := by
  constructor
  · intro herror
    obtain rfl := Except.error.inj herror
    rw [hname]
    exact ⟨rfl, rfl⟩
  · rintro ⟨rfl, hdefect⟩
    rw [← hdefect]

end SignatureDefect

/-! ## Lists in two parts -/

section Parts

variable {before rest : List Parameter} {parameter : Parameter} {place : Nat}

theorem requiredLate_append_left (hplace : place < before.length) :
    RequiredLate (before ++ rest) place ↔ RequiredLate before place := by
  unfold RequiredLate
  rw [List.getElem?_append_left hplace, List.take_append_of_le_length hplace.le]

theorem requiredLate_append_self :
    RequiredLate (before ++ parameter :: rest) before.length ↔
      parameter.isRequired = true ∧ ∃ earlier ∈ before, earlier.isOptional = true := by
  simp [RequiredLate]

theorem getElem?_behind (index : Nat) :
    (before ++ parameter :: rest)[before.length + 1 + index]? = rest[index]? := by
  have hindex : before.length + 1 + index - before.length = index + 1 := by omega
  rw [List.getElem?_append_right (by omega), hindex, List.getElem?_cons_succ]

theorem mem_take_append (hplace : before.length < place) :
    parameter ∈ (before ++ parameter :: rest).take place := by
  obtain ⟨more, rfl⟩ := Nat.exists_eq_add_of_lt hplace
  rw [List.take_append, Nat.add_assoc, Nat.add_sub_cancel_left, List.take_succ_cons]
  exact List.mem_append_right _ List.mem_cons_self

end Parts

/-! ## What the check has gone through -/

/-- No ellipsis and no misplaced parameter: the check goes on behind such a list. -/
structure Passed (before : List Parameter) : Prop where
  typed : ∀ parameter ∈ before, parameter.isEllipsis = false
  not_late : ∀ place, ¬ RequiredLate before place

theorem passed_nil : Passed [] where
  typed := by simp
  not_late := by simp [RequiredLate]

namespace Passed

variable {before rest : List Parameter} {parameter : Parameter} {place : Nat}
  (hpassed : Passed before)
include hpassed

/-- One more parameter with a type is passed if it has a default or none was seen. -/
theorem concat (htyped : parameter.isEllipsis = false)
    (hdefault : parameter.hasDefault = true ∨ before.any (·.isOptional) = false) :
    Passed (before ++ [parameter]) where
  typed other hmem := by
    rcases List.mem_append.mp hmem with hold | hnew
    · exact hpassed.typed other hold
    · rw [List.mem_singleton.mp hnew, htyped]
  not_late place hlate := by
    rcases Nat.lt_trichotomy place before.length with hold | rfl | hbeyond
    · exact hpassed.not_late place ((requiredLate_append_left hold).mp hlate)
    · obtain ⟨hrequired, earlier, hmem, hoptional⟩ := requiredLate_append_self.mp hlate
      rcases hdefault with hdefault | hnone
      · simp [Parameter.isRequired, hdefault] at hrequired
      · exact absurd hoptional (by simpa using List.any_eq_false.mp hnone earlier hmem)
    · obtain ⟨⟨late, hlate, _⟩, _⟩ := hlate
      rw [List.getElem?_eq_none (by simpa using hbeyond)] at hlate
      cases hlate

/-- Whatever is misplaced stands behind what was passed. -/
theorem length_le_of_late (hlate : RequiredLate (before ++ rest) place) :
    before.length ≤ place := by
  by_contra hplace
  exact hpassed.not_late place ((requiredLate_append_left (Nat.lt_of_not_le hplace)).mp hlate)

theorem not_mem_of_ellipsis (hellipsis : parameter.isEllipsis = true) : parameter ∉ before := by
  intro hmem
  rw [hpassed.typed parameter hmem] at hellipsis
  cases hellipsis

theorem countP_eq_zero : before.countP (·.isEllipsis) = 0 :=
  List.countP_eq_zero.mpr fun _ hmem hellipsis => hpassed.not_mem_of_ellipsis hellipsis hmem

theorem length_le_of_ellipsis (hfound : parameter ∈ (before ++ rest)[place]?)
    (hellipsis : parameter.isEllipsis = true) : before.length ≤ place := by
  by_contra hplace
  rw [List.getElem?_append_left (Nat.lt_of_not_le hplace)] at hfound
  exact hpassed.not_mem_of_ellipsis hellipsis (List.mem_of_getElem? hfound)

/-- Nothing in what was passed can be blamed. -/
theorem not_blames (defect : SignatureDefect) : ¬ defect.Blames before := by
  intro hblames
  cases defect with
  | ellipsisNotLast name place =>
      obtain ⟨found, hfound, hellipsis⟩ := (hblames.1 place).mpr rfl
      exact hpassed.not_mem_of_ellipsis hellipsis (List.mem_of_getElem? hfound)
  | multipleEllipsis name =>
      have hcount := hblames.1
      rw [hpassed.countP_eq_zero] at hcount
      omega
  | defaultsNotTrailing name place => exact hpassed.not_late place hblames.1.1
  | missingReceiver name => exact hblames
  | unexpectedReceiver name => exact hblames

section Ellipsis

variable (hellipsis : parameter.isEllipsis = true)
include hellipsis

/-- Behind an ellipsis anything misplaced has the ellipsis before it. -/
theorem length_lt_of_late (hlate : RequiredLate (before ++ parameter :: rest) place) :
    before.length < place := by
  refine Nat.lt_of_le_of_ne (hpassed.length_le_of_late hlate) ?_
  rintro rfl
  have hrequired := (requiredLate_append_self.mp hlate).1
  simp [Parameter.isRequired, hellipsis] at hrequired

theorem ellipsisBeforeLate : EllipsisBeforeLate (before ++ parameter :: rest) :=
  fun _ hlate =>
    ⟨parameter, mem_take_append (hpassed.length_lt_of_late hellipsis hlate), hellipsis⟩

theorem onlyEllipsis_iff :
    OnlyEllipsis (before ++ parameter :: rest) place ↔
      place = before.length ∧ rest.any (·.isEllipsis) = false := by
  have hself : ∃ found ∈ (before ++ parameter :: rest)[before.length]?,
      found.isEllipsis = true := ⟨parameter, by simp, hellipsis⟩
  constructor
  · intro honly
    have hplace := (honly before.length).mp hself
    refine ⟨hplace.symm, ?_⟩
    rw [List.any_eq_false]
    intro other hmem hother
    obtain ⟨index, hindex⟩ := List.mem_iff_getElem?.mp hmem
    have hsame := (honly (before.length + 1 + index)).mp
      ⟨other, (getElem?_behind index).trans hindex, hother⟩
    omega
  · rintro ⟨rfl, hnone⟩ other
    refine ⟨?_, fun hsame => hsame ▸ hself⟩
    rintro ⟨found, hfound, hother⟩
    -- Not in front, where all have a type, and not behind, where there is no ellipsis.
    rcases Nat.eq_or_lt_of_le (hpassed.length_le_of_ellipsis hfound hother) with hsame | hbehind
    · exact hsame.symm
    · obtain ⟨index, rfl⟩ := Nat.exists_eq_add_of_le (Nat.succ_le_of_lt hbehind)
      rw [Nat.succ_eq_add_one, getElem?_behind] at hfound
      exact absurd hother (List.any_eq_false.mp hnone found (List.mem_of_getElem? hfound))

theorem two_le_countP_iff :
    2 ≤ (before ++ parameter :: rest).countP (·.isEllipsis) ↔
      rest.any (·.isEllipsis) = true := by
  rw [List.countP_append, hpassed.countP_eq_zero, List.countP_cons_of_pos hellipsis,
    List.any_eq_true, ← List.countP_pos_iff]
  omega

/-- What is blamed in a list where an ellipsis is the first to be noticed. -/
theorem blames_ellipsis_iff {defect : SignatureDefect} :
    defect.Blames (before ++ parameter :: rest) ↔
      (rest.any (·.isEllipsis) = true ∧ defect = .multipleEllipsis defect.name) ∨
        (rest.any (·.isEllipsis) = false ∧ rest ≠ [] ∧
          defect = .ellipsisNotLast defect.name before.length) := by
  cases defect with
  | ellipsisNotLast name place =>
      have hlength : before.length + 1 < (before ++ parameter :: rest).length ↔ rest ≠ [] := by
        rw [← List.length_pos_iff, List.length_append, List.length_cons]
        omega
      simp only [SignatureDefect.Blames, SignatureDefect.name, hpassed.onlyEllipsis_iff hellipsis,
        hpassed.ellipsisBeforeLate hellipsis, SignatureDefect.ellipsisNotLast.injEq]
      constructor
      · rintro ⟨⟨rfl, hnone⟩, hlong, _⟩
        exact Or.inr ⟨hnone, hlength.mp hlong, trivial, rfl⟩
      · rintro (⟨_, hother⟩ | ⟨hnone, hsome, _, rfl⟩)
        · cases hother
        · exact ⟨⟨rfl, hnone⟩, hlength.mpr hsome, trivial⟩
  | multipleEllipsis name =>
      rw [SignatureDefect.Blames, hpassed.two_le_countP_iff hellipsis]
      simp [SignatureDefect.name, hpassed.ellipsisBeforeLate hellipsis]
  | defaultsNotTrailing name place =>
      have hnot : ¬ (SignatureDefect.defaultsNotTrailing name place).Blames
          (before ++ parameter :: rest) := by
        rintro ⟨⟨hlate, _⟩, htyped⟩
        obtain ⟨earlier, hmem, hearlier⟩ := hpassed.ellipsisBeforeLate hellipsis place hlate
        rw [htyped earlier hmem] at hearlier
        cases hearlier
      simp [hnot]
  | missingReceiver name => simp [SignatureDefect.Blames]
  | unexpectedReceiver name => simp [SignatureDefect.Blames]

end Ellipsis

/-- What is blamed in a list where a required parameter after a defaulted one is the first to
be noticed. -/
theorem blames_late_iff {defect : SignatureDefect} (hrequired : parameter.isRequired = true)
    (hseen : before.any (·.isOptional) = true) :
    defect.Blames (before ++ parameter :: rest) ↔
      defect = .defaultsNotTrailing defect.name before.length := by
  have hself : RequiredLate (before ++ parameter :: rest) before.length :=
    requiredLate_append_self.mpr ⟨hrequired, by simpa using hseen⟩
  -- This place rules out both defects of an ellipsis: none was passed on the way to it.
  have hno : ¬ EllipsisBeforeLate (before ++ parameter :: rest) := by
    intro hbefore
    obtain ⟨earlier, hmem, hellipsis⟩ := hbefore before.length hself
    rw [List.take_left] at hmem
    exact hpassed.not_mem_of_ellipsis hellipsis hmem
  have hfirst : ∀ earlier < before.length, ¬ RequiredLate (before ++ parameter :: rest) earlier :=
    fun earlier hless hlate => absurd (hpassed.length_le_of_late hlate) (Nat.not_le_of_lt hless)
  cases defect with
  | ellipsisNotLast name place => simp [SignatureDefect.Blames, hno]
  | multipleEllipsis name => simp [SignatureDefect.Blames, hno]
  | defaultsNotTrailing name place =>
      simp only [SignatureDefect.Blames, SignatureDefect.name,
        SignatureDefect.defaultsNotTrailing.injEq, true_and]
      constructor
      · rintro ⟨⟨hlate, hnone⟩, _⟩
        refine Nat.le_antisymm (Nat.le_of_not_lt fun hless => ?_) (hpassed.length_le_of_late hlate)
        exact hnone before.length hless hself
      · rintro rfl
        refine ⟨⟨hself, hfirst⟩, ?_⟩
        rw [List.take_left]
        exact hpassed.typed
  | missingReceiver name => simp [SignatureDefect.Blames]
  | unexpectedReceiver name => simp [SignatureDefect.Blames]

end Passed

namespace Signature

/-! ## The check -/

/-- Behind what was passed, the check reports what is to be blamed in the whole list. -/
theorem checkParameters_eq_error_iff {before rest : List Parameter} (hpassed : Passed before)
    {name : String} {defect : SignatureDefect} :
    checkParameters name before.length (before.any (·.isOptional)) rest = .error defect ↔
      defect.name = name ∧ defect.Blames (before ++ rest) := by
  -- The induction is on what is left; the parameter in front moves over to what was passed.
  induction rest generalizing before with
  | nil => simp [checkParameters, hpassed.not_blames defect]
  | cons parameter rest ih =>
      have hmove : before ++ parameter :: rest = before ++ [parameter] ++ rest := by simp
      rw [checkParameters]
      cases hellipsis : parameter.isEllipsis with
      | true =>
          rw [hpassed.blames_ellipsis_iff hellipsis, if_pos rfl]
          cases hany : rest.any (·.isEllipsis) with
          | true => simpa using SignatureDefect.error_eq_iff_of_name .multipleEllipsis fun _ => rfl
          | false =>
              cases rest with
              | nil => simp
              | cons next rest =>
                  simpa using SignatureDefect.error_eq_iff_of_name
                    (.ellipsisNotLast · before.length) fun _ => rfl
      | false =>
          rw [if_neg Bool.false_ne_true]
          cases hdefault : parameter.hasDefault with
          | true =>
              have hmore := ih (hpassed.concat hellipsis (Or.inl hdefault))
              rw [hmove, ← hmore]
              simp [Parameter.isOptional, hellipsis, hdefault]
          | false =>
              cases hseen : before.any (·.isOptional) with
              | true =>
                  have hrequired : parameter.isRequired = true := by
                    simp [Parameter.isRequired, hellipsis, hdefault]
                  rw [hpassed.blames_late_iff hrequired hseen]
                  simpa using SignatureDefect.error_eq_iff_of_name
                    (.defaultsNotTrailing · before.length) fun _ => rfl
              | false =>
                  have hmore := ih (hpassed.concat hellipsis (Or.inr hseen))
                  rw [hmove, ← hmore, List.any_append, hseen]
                  simp [Parameter.isOptional, hdefault]

theorem checkReceiver_eq_ok_iff {signature : Signature} :
    signature.checkReceiver = .ok () ↔
      (signature.kind = .method → signature.isMember = true) ∧
        (signature.kind = .function → signature.isMember = false) := by
  unfold checkReceiver isMember
  cases signature.kind <;> cases signature.receiver <;> simp

theorem checkReceiver_eq_error_iff {signature : Signature} {defect : SignatureDefect} :
    signature.checkReceiver = .error defect ↔
      (signature.kind = .method ∧ signature.isMember = false ∧
          defect = .missingReceiver signature.name) ∨
        (signature.kind = .function ∧ signature.isMember = true ∧
          defect = .unexpectedReceiver signature.name) := by
  unfold checkReceiver isMember
  cases signature.kind <;> cases signature.receiver <;> simp [eq_comm]

theorem checkParameters_eq_ok_iff_inForm {name : String} {parameters : List Parameter} :
    checkParameters name 0 false parameters = .ok () ↔ InForm parameters := by
  rw [checkParameters_eq_ok_iff]
  simp [InForm]

theorem check_eq_ok_iff {signature : Signature} :
    signature.check = .ok () ↔
      InForm signature.parameters ∧ signature.checkReceiver = .ok () := by
  rw [check, Traversal.bind_eq_ok_iff, Unique.exists_iff]
  exact and_congr_left' checkParameters_eq_ok_iff_inForm

/-- The parameters decide before the receiver is looked at. -/
theorem check_eq_error_iff {signature : Signature} {defect : SignatureDefect} :
    signature.check = .error defect ↔
      (defect.name = signature.name ∧ defect.Blames signature.parameters) ∨
        (InForm signature.parameters ∧ signature.checkReceiver = .error defect) := by
  rw [check, Traversal.bind_eq_error_iff, Unique.exists_iff]
  exact or_congr (checkParameters_eq_error_iff passed_nil)
    (and_congr_left' checkParameters_eq_ok_iff_inForm)

/-- A signature passes exactly if its parameters are required ones, then defaulted ones, then at
most one ellipsis, a method has a receiver and a function has none.  Otherwise the answer says
what is wrong first from the left; the receiver is blamed only if the parameters are in order. -/
theorem check_blames_first_offender (signature : Signature) :
    (signature.check = .ok () ↔
      InForm signature.parameters ∧ (signature.kind = .method → signature.isMember = true) ∧
        (signature.kind = .function → signature.isMember = false)) ∧
    (∀ name place, signature.check = .error (.ellipsisNotLast name place) ↔
      name = signature.name ∧ OnlyEllipsis signature.parameters place ∧
        place + 1 < signature.parameters.length ∧ EllipsisBeforeLate signature.parameters) ∧
    (∀ name, signature.check = .error (.multipleEllipsis name) ↔
      name = signature.name ∧ 2 ≤ signature.parameters.countP (·.isEllipsis) ∧
        EllipsisBeforeLate signature.parameters) ∧
    (∀ name place, signature.check = .error (.defaultsNotTrailing name place) ↔
      name = signature.name ∧ FirstRequiredLate signature.parameters place ∧
        ∀ earlier ∈ signature.parameters.take place, earlier.isEllipsis = false) ∧
    (∀ name, signature.check = .error (.missingReceiver name) ↔
      name = signature.name ∧ InForm signature.parameters ∧ signature.kind = .method ∧
        signature.isMember = false) ∧
    ∀ name, signature.check = .error (.unexpectedReceiver name) ↔
      name = signature.name ∧ InForm signature.parameters ∧ signature.kind = .function ∧
        signature.isMember = true := by
  refine ⟨?_, fun name place => ?_, fun name => ?_, fun name place => ?_, fun name => ?_,
    fun name => ?_⟩
  · rw [check_eq_ok_iff, checkReceiver_eq_ok_iff]
  · rw [check_eq_error_iff, checkReceiver_eq_error_iff]
    simp [SignatureDefect.name, SignatureDefect.Blames]
  · rw [check_eq_error_iff, checkReceiver_eq_error_iff]
    simp [SignatureDefect.name, SignatureDefect.Blames]
  · rw [check_eq_error_iff, checkReceiver_eq_error_iff]
    simp [SignatureDefect.name, SignatureDefect.Blames]
  · rw [check_eq_error_iff, checkReceiver_eq_error_iff]
    simp only [SignatureDefect.Blames, and_false, false_or, reduceCtorEq, or_false,
      SignatureDefect.missingReceiver.injEq]
    tauto
  · rw [check_eq_error_iff, checkReceiver_eq_error_iff]
    simp only [SignatureDefect.Blames, and_false, false_or, reduceCtorEq,
      SignatureDefect.unexpectedReceiver.injEq]
    tauto

/-- Of two offenders the one on the left is blamed. -/
example :
    check ⟨"f", .root, .function,
        [⟨.empty, .byValue, true, false⟩, ⟨.empty, .byValue, false, false⟩, .ellipsis, .ellipsis],
        none⟩ = .error (.defaultsNotTrailing "f" 1) ∧
      check ⟨"f", .root, .function,
        [⟨.empty, .byValue, true, false⟩, .ellipsis, ⟨.empty, .byValue, false, false⟩],
        none⟩ = .error (.ellipsisNotLast "f" 1) := by
  decide

end Signature
end CallResolution
