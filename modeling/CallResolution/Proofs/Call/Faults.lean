import Mathlib.Tactic
import CallResolution.Proofs.Call.Collection

/-!
# When a call cannot be resolved

A call fails for one of three reasons, which are looked at in this order: its scope is not in
the graph, an operator has the wrong number of operands, or a candidate is malformed.  In the
last case the first malformed candidate is blamed.  A call that fails for none of them has an
outcome.

A malformed candidate is the work of a command that stored a signature without checking its
form.  The commands that check leave no malformed signature behind, neither in a scope nor as
a copy, and look-up finds nothing but stored signatures.
-/

namespace CallResolution

/-- An operator has as many operands as it takes. -/
def CallSite.OperandsFit (call : CallSite) : Prop :=
  ∀ op, call.callee = .operator op → call.args.length = op.arity

/-- The proposal at some place is malformed with this defect, and none before it is. -/
def Proposal.FirstDefect (proposals : List Proposal) (defect : SignatureDefect) : Prop :=
  ∃ place proposal, proposals[place]? = some proposal ∧
    proposal.signature.check = .error defect ∧
      ∀ earlier ∈ proposals.take place, earlier.signature.check = .ok ()

theorem Proposal.matchArguments_eq_error_iff (proposal : Proposal) (args : List Argument)
    (table : ConversionTable) (graph : ScopeGraph) (defect : SignatureDefect) :
    proposal.matchArguments args table graph = .error defect ↔
      proposal.signature.check = .error defect := by
  rw [matchArguments, Traversal.bind_eq_error_iff]
  constructor
  · rintro (hcheck | ⟨_, _, hmatch⟩)
    · exact hcheck
    · -- After the check of the form nothing fails any more.
      split at hmatch
      · cases hmatch
      · cases hmatch
  · exact Or.inl

namespace Program

/-- Why a call cannot be resolved.  A later reason counts only where the earlier ones do
not apply. -/
inductive Refuses (program : Program) (call : CallSite) : CallFault → Prop
  | scope (hscope : program.graph.holds call.scope = false) :
      Refuses program call (.unknownScope call.id call.scope)
  | operands (op : Operator) (hscope : program.graph.holds call.scope = true)
      (hcallee : call.callee = .operator op) (hcount : call.args.length ≠ op.arity) :
      Refuses program call (.arity call.id op call.args.length)
  | candidate (defect : SignatureDefect) (hscope : program.graph.holds call.scope = true)
      (hoperands : call.OperandsFit)
      (hdefect : Proposal.FirstDefect (program.collected call) defect) :
      Refuses program call (.malformedSignature defect)

section Checks

variable (program : Program) (call : CallSite)

/-- The checks before look-up, one after the other. -/
theorem checkCall_eq :
    program.checkCall call =
      if program.graph.holds call.scope = false then .error (.unknownScope call.id call.scope)
      else match call.callee with
        | .named _ => .ok ()
        | .operator op =>
            if call.args.length = op.arity then .ok ()
            else .error (.arity call.id op call.args.length) := by
  unfold checkCall
  cases program.graph.holds call.scope with
  | false => rfl
  | true =>
      cases call.callee with
      | named name => rfl
      | operator op =>
          by_cases hcount : call.args.length = op.arity
          · simp only [hcount, if_true]
            rfl
          · simp only [hcount, if_false]
            rfl

theorem checkCall_eq_ok_iff :
    program.checkCall call = .ok () ↔
      program.graph.holds call.scope = true ∧ call.OperandsFit := by
  rw [checkCall_eq]
  unfold CallSite.OperandsFit
  cases program.graph.holds call.scope with
  | false => simp
  | true =>
      cases call.callee with
      | named name => simp
      | operator op => by_cases hcount : call.args.length = op.arity <;> simp [hcount]

theorem checkCall_eq_error_iff (fault : CallFault) :
    program.checkCall call = .error fault ↔
      program.graph.holds call.scope = false ∧ fault = .unknownScope call.id call.scope ∨
        program.graph.holds call.scope = true ∧ ∃ op, call.callee = .operator op ∧
          call.args.length ≠ op.arity ∧ fault = .arity call.id op call.args.length := by
  rw [checkCall_eq]
  cases program.graph.holds call.scope with
  | false => simp [eq_comm]
  | true =>
      cases call.callee with
      | named name => simp
      | operator op =>
          by_cases hcount : call.args.length = op.arity <;> simp [hcount, eq_comm]

/-- Matching fails with the defect of the first malformed candidate. -/
theorem matched_eq_error_iff (fault : CallFault) :
    program.matched call = .error fault ↔
      ∃ defect, Proposal.FirstDefect (program.collected call) defect ∧
        fault = .malformedSignature defect := by
  have hearlier : ∀ proposal : Proposal,
      (∃ candidate, proposal.matchArguments call.args program.table program.graph =
        .ok candidate) ↔ proposal.signature.check = .ok () := by
    intro proposal
    simp [Proposal.matchArguments_eq_ok_iff]
  rw [matched, Traversal.mapM_eq_error_iff]
  simp only [Traversal.mapError_eq_ok_iff, Traversal.mapError_eq_error_iff,
    Proposal.matchArguments_eq_error_iff, hearlier]
  constructor
  · rintro ⟨place, proposal, hplace, ⟨defect, hdefect, rfl⟩, hsound⟩
    exact ⟨defect, ⟨place, proposal, hplace, hdefect, hsound⟩, rfl⟩
  · rintro ⟨defect, ⟨place, proposal, hplace, hdefect, hsound⟩, rfl⟩
    exact ⟨place, proposal, hplace, ⟨defect, hdefect, rfl⟩, hsound⟩

theorem resolve_eq_error_iff (fault : CallFault) :
    program.resolve call = .error fault ↔ program.Refuses call fault := by
  have hsettled : ∀ candidates : List Candidate,
      (pure ⟨call.id, Resolution.ofCandidates candidates⟩ : Except CallFault SettledCall) ≠
        .error fault := by
    intro candidates hfault
    cases hfault
  rw [resolve, Traversal.bind_eq_error_iff, checkCall_eq_error_iff]
  constructor
  · rintro ((⟨hscope, rfl⟩ | ⟨hscope, op, hcallee, hcount, rfl⟩) | ⟨_, hcheck, hrest⟩)
    · exact .scope hscope
    · exact .operands op hscope hcallee hcount
    · obtain ⟨hscope, hoperands⟩ := (checkCall_eq_ok_iff program call).mp hcheck
      rcases Traversal.bind_eq_error_iff.mp hrest with hmatched | ⟨candidates, _, hfault⟩
      · obtain ⟨defect, hdefect, rfl⟩ := (matched_eq_error_iff program call fault).mp hmatched
        exact .candidate defect hscope hoperands hdefect
      · exact absurd hfault (hsettled candidates)
  · intro hrefuses
    cases hrefuses with
    | scope hscope => exact Or.inl (Or.inl ⟨hscope, rfl⟩)
    | operands op hscope hcallee hcount =>
        exact Or.inl (Or.inr ⟨hscope, op, hcallee, hcount, rfl⟩)
    | candidate defect hscope hoperands hdefect =>
        refine Or.inr ⟨(), (checkCall_eq_ok_iff program call).mpr ⟨hscope, hoperands⟩, ?_⟩
        exact Traversal.bind_eq_error_iff.mpr
          (Or.inl ((matched_eq_error_iff program call _).mpr ⟨defect, hdefect, rfl⟩))

end Checks

end Program

/-! ## Where malformed candidates come from -/

namespace ScopeGraph

/-- One of the commands is to store this signature without a check of its form. -/
def StoredUnchecked (commands : List Command) (signature : Signature) : Prop :=
  ∃ declaration, .declareAsIs declaration ∈ commands ∧ declaration.signature = signature

theorem BuiltBy.storedOnce {commands : List Command} {graph : ScopeGraph}
    (hbuilt : BuiltBy commands graph) :
    StoredOnce (fun signature => signature.check = .ok () ∨ StoredUnchecked commands signature)
      graph := by
  refine hbuilt.induct (fun _ hcheck => Or.inl hcheck) ?_
    (storedOnce_of_no_signatures rfl rfl) (storedOnce_of_no_signatures rfl rfl)
    fun _ _ _ hextension hstored => hstored.extend hextension
  rintro command hcommand declaration rfl
  exact Or.inr ⟨declaration, hcommand, rfl⟩

/-- A malformed candidate was stored unchecked. -/
theorem BuiltBy.storedUnchecked_of_collect {commands : List Command} {graph : ScopeGraph}
    (hbuilt : BuiltBy commands graph) {callee : Callee} {scope : ScopeId}
    {operands : List Fingerprint} {proposal : Proposal}
    (hmem : proposal ∈ graph.collect callee scope operands) {defect : SignatureDefect}
    (hdefect : proposal.signature.check = .error defect) :
    StoredUnchecked commands proposal.signature := by
  have hstored := hbuilt.storedOnce
  rcases hstored.accepted _ (hstored.mem_stored_of_collect hmem) with hcheck | hunchecked
  · rw [hcheck] at hdefect
    cases hdefect
  · exact hunchecked

end ScopeGraph

namespace Program

open ScopeGraph

/-- A call fails exactly for the three reasons.  A malformed candidate that it blames was
stored by a command that skips the check; without such a command, a call from a known scope
with the right number of operands has an outcome. -/
theorem resolve_fails_only_when_refused {commands : List Command} {graph : ScopeGraph}
    (hbuilt : BuiltBy commands graph) (table : ConversionTable) (call : CallSite) :
    (∀ fault, resolve ⟨graph, table⟩ call = .error fault ↔
      Refuses ⟨graph, table⟩ call fault) ∧
    (∀ defect, resolve ⟨graph, table⟩ call = .error (.malformedSignature defect) →
      ∃ declaration, .declareAsIs declaration ∈ commands ∧
        declaration.signature.check = .error defect) ∧
    ((∀ command ∈ commands, command.isChecked = true) →
      (∀ defect, resolve ⟨graph, table⟩ call ≠ .error (.malformedSignature defect)) ∧
        (graph.holds call.scope = true → call.OperandsFit →
          ∃ resolution, resolve ⟨graph, table⟩ call = .ok ⟨call.id, resolution⟩)) := by
  have hfails := resolve_eq_error_iff ⟨graph, table⟩ call
  have hblames : ∀ defect, resolve ⟨graph, table⟩ call = .error (.malformedSignature defect) →
      ∃ declaration, .declareAsIs declaration ∈ commands ∧
        declaration.signature.check = .error defect := by
    intro defect hfault
    cases (hfails _).mp hfault with
    | candidate _ _ _ hdefect =>
        obtain ⟨place, proposal, hplace, hdefect, _⟩ := hdefect
        obtain ⟨declaration, hcommand, hsignature⟩ :=
          hbuilt.storedUnchecked_of_collect (List.mem_of_getElem? hplace) hdefect
        exact ⟨declaration, hcommand, hsignature ▸ hdefect⟩
  refine ⟨hfails, hblames, ?_⟩
  intro hchecked
  have hnone : ∀ defect,
      resolve ⟨graph, table⟩ call ≠ .error (.malformedSignature defect) := by
    intro defect hfault
    obtain ⟨declaration, hcommand, _⟩ := hblames defect hfault
    cases hchecked _ hcommand
  refine ⟨hnone, ?_⟩
  intro hscope hoperands
  cases hresolve : resolve ⟨graph, table⟩ call with
  | ok settled =>
      obtain ⟨_, candidates, _, rfl⟩ := (resolve_eq_ok_iff _ _ _).mp hresolve
      exact ⟨_, rfl⟩
  | error fault =>
      cases (hfails fault).mp hresolve with
      | scope hunknown =>
          rw [hscope] at hunknown
          cases hunknown
      | operands op _ hcallee hcount => exact absurd (hoperands op hcallee) hcount
      | candidate defect => exact absurd hresolve (hnone defect)

/-- An addition of vectors whose second parameter has no default though the first has one. -/
def vectorFriend : Signature where
  name := "operator+"
  origin := ⟨2⟩
  kind := .operator
  parameters := [⟨.ofName "math::Vec", .constReference, true, false⟩,
    ⟨.ofName "math::Vec", .constReference, false, false⟩]
  receiver := none

/-- A class of vectors with a member addition.  The last command stores the malformed one,
which argument-dependent look-up finds as a copy in the namespace. -/
def vectorCommands : List Command :=
  [.enterPath ["math"], .newClass ⟨1⟩ "Vec" [],
    .newMemberOperator (.ofName "math::Vec") .add false
      [⟨.ofName "math::Vec", .constReference, false, false⟩],
    .declareAsIs ⟨vectorFriend, some ⟨1⟩⟩]

/-- The sum of two vectors, outside of their namespace. -/
def vectorSum : CallSite :=
  ⟨7, .operator .add, ScopeId.root,
    [⟨.ofName "math::Vec", .rvalue⟩, ⟨.ofName "math::Vec", .rvalue⟩], ⟨0, 0⟩⟩

/-- The member comes first and is fine, the copy is blamed; and the sum has an outcome before
the malformed addition is stored. -/
theorem vectorSum_blames_friend :
    BuiltBy vectorCommands (Command.runAll vectorCommands withScalars) ∧
    resolve ⟨Command.runAll vectorCommands withScalars, .empty⟩ vectorSum =
      .error (.malformedSignature (.defaultsNotTrailing "operator+" 1)) ∧
    (∃ declaration, .declareAsIs declaration ∈ vectorCommands ∧
      declaration.signature.check = .error (.defaultsNotTrailing "operator+" 1)) ∧
    ∃ resolution, resolve ⟨Command.runAll (vectorCommands.take 3) withScalars, .empty⟩ vectorSum =
      .ok ⟨7, resolution⟩ := by
  have hbuilt : BuiltBy vectorCommands (Command.runAll vectorCommands withScalars) := Or.inr rfl
  have hoperands : vectorSum.OperandsFit := by
    rintro op ⟨⟩
    rfl
  obtain ⟨hfails, hblames, _⟩ := resolve_fails_only_when_refused hbuilt .empty vectorSum
  have hfault := (hfails _).mpr (.candidate (.defaultsNotTrailing "operator+" 1)
    (by decide +kernel) hoperands
    ⟨1, ⟨vectorFriend, .argumentDependent⟩, by decide +kernel, by decide, by decide +kernel⟩)
  have hbefore : BuiltBy (vectorCommands.take 3)
      (Command.runAll (vectorCommands.take 3) withScalars) := Or.inr rfl
  obtain ⟨_, _, hsettles⟩ := resolve_fails_only_when_refused hbefore .empty vectorSum
  exact ⟨hbuilt, hfault, hblames _ hfault,
    (hsettles (by decide)).2 (by decide +kernel) hoperands⟩

end Program
end CallResolution
