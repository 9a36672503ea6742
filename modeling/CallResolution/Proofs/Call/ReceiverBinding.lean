import Mathlib.Tactic
import CallResolution.Proofs.Call.Collection
import CallResolution.Proofs.Call.ExactMatching
import CallResolution.Proofs.Scope.Exhaustion

/-!
# What the receiver takes

In an operator call the left operand is meant for the receiver of a member, in a named call
the receiver takes nothing.  Matching does not see the callee.  It goes by the kind of the
signature, and nothing ties the kind to the callee: a method may be declared under the name
of an operator, and a named call may spell that name out.

Where kind and callee agree, a member is matched as the callee asks for.  Where they do not,
every argument is one place off, and it shows: bounds on the number of arguments are one off,
and no member that accepts the call would accept it in the same way.  Only an argument that is
refused may happen to be refused either way.
-/

namespace CallResolution

namespace Callee

def isOperator : Callee → Bool
  | .operator _ => true
  | .named _ => false

/-- The receiver that the first argument of a call is meant for, if it is meant for one. -/
def receiverFor (callee : Callee) (signature : Signature) : Option Receiver :=
  if callee.isOperator then signature.receiver else none

end Callee

/-! ## Two receivers do not come to the same -/

section Apart

theorem Argument.isEllipsis_of_bind {arg : Argument} {parameter : Parameter}
    {table : ConversionTable} {graph : ScopeGraph}
    (hbind : arg.bind parameter table graph = .ok .ellipsis) : parameter.isEllipsis = true := by
  unfold Argument.bind at hbind
  split at hbind
  · rename_i hellipsis
    exact hellipsis
  · split at hbind
    · split at hbind
      · cases hbind
      · split at hbind <;> cases hbind
    · split at hbind <;> cases hbind

theorem Argument.bindAsReceiver_ne_ellipsis (arg : Argument) (receiver : Receiver)
    (graph : ScopeGraph) : arg.bindAsReceiver receiver graph ≠ .ok .ellipsis := by
  intro hbind
  unfold bindAsReceiver at hbind
  split at hbind
  · cases hbind
  · split at hbind
    · cases hbind
    · split at hbind <;> cases hbind

theorem Signature.isEllipsis_of_mem_fixedParameters {signature : Signature}
    (hcheck : signature.check = .ok ()) {parameter : Parameter}
    (hmem : parameter ∈ signature.fixedParameters) : parameter.isEllipsis = false := by
  obtain ⟨required, defaulted, tail, hform⟩ := exists_form_of_check hcheck
  rw [hform.fixedParameters_eq, List.mem_append] at hmem
  rcases hmem with hrequired | hdefaulted
  · exact (hform.of_required parameter hrequired).1
  · exact (hform.of_defaulted parameter hdefaulted).1

variable {candidate : Candidate} {taker : Receiver} {args : List Argument}
  {table : ConversionTable} {graph : ScopeGraph}

/-- A receiver that takes an argument puts off the ellipsis by one place. -/
theorem Signature.slotFrom_length_ne_ellipsis {signature : Signature}
    (hcheck : signature.check = .ok ()) (taker : Receiver) (arg : Argument) :
    (signature.slotFrom (some taker) signature.fixedParameters.length).bind arg table graph ≠
      .ok .ellipsis := by
  intro hbind
  cases hlength : signature.fixedParameters.length with
  | zero =>
      rw [hlength] at hbind
      exact arg.bindAsReceiver_ne_ellipsis taker graph hbind
  | succ index =>
      have hindex : index < signature.fixedParameters.length := by omega
      rw [hlength] at hbind
      have hellipsis := Argument.isEllipsis_of_bind hbind
      rw [List.getElem?_eq_getElem hindex, Option.getD_some,
        isEllipsis_of_mem_fixedParameters hcheck (List.getElem_mem hindex)] at hellipsis
      cases hellipsis

/-- A candidate that is the same with a receiver and without one has an argument that was
refused. -/
theorem Candidate.MatchedFrom.refused_of_both (hcheck : candidate.signature.check = .ok ())
    (hnone : candidate.MatchedFrom none args table graph)
    (hsome : candidate.MatchedFrom (some taker) args table graph) :
    ∃ place reason, candidate.failure = some (.position place reason) := by
  cases hfailure : candidate.failure with
  | some mismatch =>
      cases mismatch with
      | position place reason => exact ⟨place, reason, rfl⟩
      | arity least most found =>
          -- The least number of arguments counts the receiver or does not.
          have hwithout : least = candidate.signature.leastCount + 0 :=
            ((hnone.arity_iff least most found).mp hfailure).2.1
          have hwith : least = candidate.signature.leastCount + 1 :=
            ((hsome.arity_iff least most found).mp hfailure).2.1
          omega
  | none =>
      have hcount : candidate.signature.leastCount + 1 ≤ args.length := by
        by_contra hfew
        have harity := (hsome.arity_iff _ _ _).mpr ⟨fun htakes => hfew htakes.1, rfl, rfl, rfl⟩
        cases hfailure.symm.trans harity
      obtain ⟨hlength, hpositions⟩ := hnone.filled hfailure
      obtain ⟨_, hpositions'⟩ := hsome.filled hfailure
      -- As many defaults either way: so there are none, and an argument is left over.
      have hfixed : candidate.signature.fixedParameters.length < candidate.bindings.length := by
        have hsame := congrArg List.length (hpositions.symm.trans hpositions')
        simp only [List.length_append, List.length_map, Signature.omittedFrom, List.length_drop,
          receiverShare, Option.isSome_none, Option.isSome_some, if_true, Bool.false_eq_true,
          if_false] at hsame
        omega
      have hbinding := List.getElem?_eq_getElem hfixed
      obtain ⟨arg, harg, hbound⟩ := hnone.bound _ _ hbinding
      obtain ⟨arg', _, hbound'⟩ := hsome.bound _ _ hbinding
      have hellipsis : (candidate.signature.slotFrom none
          candidate.signature.fixedParameters.length).bind arg table graph = .ok .ellipsis := by
        simp [Signature.slotFrom, Slot.bind, Argument.bind, Parameter.ellipsis]
      rw [Except.ok.inj (hbound.symm.trans hellipsis)] at hbound'
      exact absurd hbound' (Signature.slotFrom_length_ne_ellipsis hcheck taker arg')

end Apart

/-! ## Candidates of a call -/

theorem Resolution.candidates_ofCandidates_subset (matched : List Candidate) :
    (Resolution.ofCandidates matched).candidates ⊆ matched := by
  have hviable : Candidate.unbeaten (matched.filter (·.isViable)) ⊆ matched := fun _ hmem =>
    List.mem_of_mem_filter ((Candidate.mem_unbeaten_iff _ _).mp hmem).1
  unfold ofCandidates
  split
  · exact List.Subset.refl matched
  · split
    · rename_i hbest
      rw [hbest] at hviable
      exact hviable
    · exact hviable

/-- Every candidate in the result of a call is a signature that was collected and passed its
check, matched as its kind asks for. -/
theorem Program.matched_of_resolved {program : Program} {call : CallSite}
    {settled : SettledCall} (hresolve : program.resolve call = .ok settled) {candidate : Candidate}
    (hcandidate : candidate ∈ settled.resolution.candidates) :
    ∃ proposal ∈ program.collected call, candidate.signature = proposal.signature ∧
      candidate.signature.check = .ok () ∧
      candidate.MatchedFrom candidate.signature.operandReceiver call.args program.table
        program.graph := by
  obtain ⟨_, candidates, hmatched, rfl⟩ := (program.resolve_eq_ok_iff call settled).mp hresolve
  have hmem := Resolution.candidates_ofCandidates_subset candidates hcandidate
  obtain ⟨proposal, hproposal, hmatch⟩ :=
    Traversal.exists_of_mem_right ((program.matched_eq_ok_iff call candidates).mp hmatched) hmem
  obtain ⟨hcheck, rfl⟩ := (proposal.matchArguments_eq_ok_iff _ _ _ _).mp hmatch
  have hsignature := proposal.signature_matchedTo call.args program.table program.graph
  have hreports := proposal.reports_matchedTo call.args program.table program.graph hcheck
  exact ⟨proposal, hproposal, hsignature, hsignature ▸ hcheck, hreports.toMatchedFrom⟩

namespace ScopeGraph

variable {graph : ScopeGraph} {name : String}

theorem name_of_offered {scope : ScopeId} {signature : Signature}
    (hmem : signature ∈ graph.offered name scope) : signature.name = name := by
  obtain ⟨lower, _, hdeclared⟩ := graph.withinReach_of_mem_visit name _ scope [] signature hmem
  obtain ⟨_, _, _, hname⟩ := mem_declaredAs_iff.mp hdeclared
  exact hname

/-- A member that a call collects has the name that the call looks up. -/
theorem name_of_collected_member {callee : Callee} {scope : ScopeId}
    {operands : List Fingerprint} {proposal : Proposal}
    (hmem : proposal ∈ graph.collect callee scope operands)
    (hmember : proposal.signature.isMember = true) :
    proposal.signature.name = callee.lookupName := by
  cases callee with
  | named name =>
      obtain ⟨outer, hoffered⟩ := exists_offered_of_named hmem
      exact name_of_offered hoffered
  | operator op =>
      -- The look-ups besides that in the class of the left operand leave members out.
      rcases mem_source_of_collectOperator hmem with hclass | hlexical | hassociated
      · obtain ⟨body, hoffered⟩ := exists_offered_of_memberCandidates hclass
        exact name_of_offered hoffered
      · obtain ⟨_, _, hfree⟩ := exists_offered_of_lexicalCandidates hlexical
        cases hfree.symm.trans hmember
      · obtain ⟨_, _, hfree⟩ := exists_space_of_associatedCandidates hassociated
        cases hfree.symm.trans hmember

/-- Members are declared as operators under the names of operators, and only there. -/
def MembersNamedByKind (graph : ScopeGraph) : Prop :=
  ∀ signature ∈ graph.stored, signature.isMember = true →
    (signature.kind = .operator ↔ ∃ op : Operator, signature.name = op.declaredName)

end ScopeGraph

/-- The kind of a signature is what the callee asks for. -/
def Callee.SuitsKind (callee : Callee) (signature : Signature) : Prop :=
  signature.kind = .operator ↔ callee.isOperator = true

theorem Callee.SuitsKind.operandReceiver_eq {callee : Callee} {signature : Signature}
    (hsuits : callee.SuitsKind signature) :
    signature.operandReceiver = callee.receiverFor signature := by
  unfold Signature.operandReceiver receiverFor
  by_cases hkind : signature.kind = .operator
  · rw [if_pos hkind, if_pos (hsuits.mp hkind)]
  · rw [if_neg hkind, if_neg fun hoperator => hkind (hsuits.mpr hoperator)]

/-- Of the two receivers, that of the kind and that of the callee, one is none and the other
is not, if the kind does not suit the callee. -/
theorem Callee.receivers_of_not_suitsKind {callee : Callee} {signature : Signature}
    (hmember : signature.isMember = true) (hsuits : ¬ callee.SuitsKind signature) :
    ∃ taker, (signature.operandReceiver = some taker ∧ callee.receiverFor signature = none) ∨
      (signature.operandReceiver = none ∧ callee.receiverFor signature = some taker) := by
  obtain ⟨taker, htaker⟩ := Option.isSome_iff_exists.mp hmember
  refine ⟨taker, ?_⟩
  unfold Signature.operandReceiver receiverFor SuitsKind at *
  by_cases hkind : signature.kind = .operator
  · have hnamed : ¬ callee.isOperator = true :=
      fun hoperator => hsuits (iff_of_true hkind hoperator)
    exact .inl ⟨by rw [if_pos hkind, htaker], if_neg hnamed⟩
  · have hoperator : callee.isOperator = true := by
      by_contra hnamed
      exact hsuits (iff_of_false hkind hnamed)
    exact .inr ⟨if_neg hkind, by rw [if_pos hoperator, htaker]⟩

/-- What the kind asks for is what the callee asks for only if the one suits the other, or an
argument was refused. -/
theorem Candidate.MatchedFrom.suitsKind_or_refused {candidate : Candidate} {callee : Callee}
    {args : List Argument} {table : ConversionTable} {graph : ScopeGraph}
    (hcheck : candidate.signature.check = .ok ()) (hmember : candidate.signature.isMember = true)
    (hkind : candidate.MatchedFrom candidate.signature.operandReceiver args table graph)
    (hcallee : candidate.MatchedFrom (callee.receiverFor candidate.signature) args table graph) :
    callee.SuitsKind candidate.signature ∨
      ∃ place reason, candidate.failure = some (.position place reason) := by
  by_cases hsuits : callee.SuitsKind candidate.signature
  · exact .inl hsuits
  · obtain ⟨taker, ⟨htakes, hnothing⟩ | ⟨hnothing, htakes⟩⟩ :=
      Callee.receivers_of_not_suitsKind hmember hsuits
    · rw [htakes] at hkind
      rw [hnothing] at hcallee
      exact .inr (hcallee.refused_of_both hcheck hkind)
    · rw [hnothing] at hkind
      rw [htakes] at hcallee
      exact .inr (hkind.refused_of_both hcheck hcallee)

/-- A member among the candidates of a call is matched as its kind asks for.  This is what
the callee asks for if the kind suits the callee, and otherwise only if an argument was
refused.  The kind suits every callee where members are named by their kind and no name that
is called is that of an operator. -/
theorem member_matched_as_called {graph : ScopeGraph} (hbuilt : graph.Built)
    {table : ConversionTable} {call : CallSite} {settled : SettledCall}
    (hresolve : Program.resolve ⟨graph, table⟩ call = .ok settled) {candidate : Candidate}
    (hcandidate : candidate ∈ settled.resolution.candidates)
    (hmember : candidate.signature.isMember = true) :
    candidate.MatchedFrom candidate.signature.operandReceiver call.args table graph ∧
    (call.callee.SuitsKind candidate.signature →
      candidate.MatchedFrom (call.callee.receiverFor candidate.signature) call.args table graph) ∧
    (candidate.MatchedFrom (call.callee.receiverFor candidate.signature) call.args table graph →
      call.callee.SuitsKind candidate.signature ∨
        ∃ place reason, candidate.failure = some (.position place reason)) ∧
    (graph.MembersNamedByKind →
      (∀ name, call.callee = .named name → ∀ op : Operator, name ≠ op.declaredName) →
        call.callee.SuitsKind candidate.signature) := by
  obtain ⟨proposal, hproposal, hsignature, hcheck, hkind⟩ :=
    Program.matched_of_resolved hresolve hcandidate
  refine ⟨hkind, ?_, hkind.suitsKind_or_refused hcheck hmember, ?_⟩
  · intro hsuits
    rw [← hsuits.operandReceiver_eq]
    exact hkind
  · intro hnamed hplain
    rw [hsignature] at hmember ⊢
    have hstored := hbuilt.storedOnce.mem_stored_of_collect hproposal
    refine (hnamed _ hstored hmember).trans ?_
    -- The candidate has the name that was looked up, so the callee tells whether it is that
    -- of an operator.
    rw [ScopeGraph.name_of_collected_member hproposal hmember]
    cases hcallee : call.callee with
    | named name => simpa [Callee.lookupName, Callee.isOperator] using hplain name hcallee
    | operator op => simp [Callee.lookupName, Callee.isOperator]

/-! ## A class of vectors -/

/-- A parameter that takes a vector by constant reference. -/
def vectorParameter : Parameter :=
  ⟨.ofName "Vec", .constReference, false, false⟩

/-- A member of the class of vectors that takes one more vector. -/
def vectorMember (kind : SignatureKind) (name : String) : Signature :=
  ⟨name, ⟨1⟩, kind, [vectorParameter], some ⟨.ofName "Vec", true⟩⟩

/-- A class with an operator for sums and a method of the given name. -/
def vectorClass (method : String) : ScopeGraph :=
  Command.runAll
    [.newClass ScopeId.root "Vec" [],
      .newMemberOperator (.ofName "Vec") .add true [vectorParameter],
      .newMethod (.ofName "Vec") method true [vectorParameter]] ScopeGraph.empty

theorem built_vectorClass (method : String) : (vectorClass method).Built :=
  ⟨_, Or.inl rfl⟩

/-- A call from within the class with so many vectors. -/
def vectorCall (callee : Callee) (count : Nat) : CallSite :=
  ⟨0, callee, ⟨1⟩, List.replicate count ⟨.ofName "Vec", .rvalue⟩, ⟨1, 1⟩⟩

/-- The sum of two vectors: the first goes to the receiver, the second to the parameter. -/
def sumOfTwo : Candidate where
  signature := vectorMember .operator "operator+"
  source := .member
  positions := [.supplied .exact, .supplied .exact]
  bindings := [.converted (.identity (.ofName "Vec")), .converted (.identity (.ofName "Vec"))]
  failure := none

theorem membersNamedByKind_vectorClass : (vectorClass "scale").MembersNamedByKind := by
  have hstored : (vectorClass "scale").stored =
      [vectorMember .operator "operator+", vectorMember .method "scale"] := by
    decide +kernel
  have hscale : ∀ op : Operator, "scale" ≠ op.declaredName := by
    intro op
    cases op <;> decide
  intro signature hmem _
  rw [hstored] at hmem
  rcases List.mem_cons.mp hmem with rfl | hmem
  · exact iff_of_true rfl ⟨.add, rfl⟩
  · obtain rfl := List.mem_singleton.mp hmem
    exact iff_of_false (by decide) fun ⟨op, hname⟩ => hscale op hname

/-- Where the method is called `scale`, sums are matched with their left operand as the
receiver. -/
theorem sumOfTwo_matched_as_called :
    Program.resolve ⟨vectorClass "scale", .empty⟩ (vectorCall (.operator .add) 2) =
        .ok ⟨0, .selected sumOfTwo⟩ ∧
      (vectorClass "scale").MembersNamedByKind ∧
      (Callee.operator .add).SuitsKind sumOfTwo.signature ∧
      sumOfTwo.MatchedFrom (some ⟨.ofName "Vec", true⟩) (vectorCall (.operator .add) 2).args
        .empty (vectorClass "scale") := by
  have hresolve : Program.resolve ⟨vectorClass "scale", .empty⟩ (vectorCall (.operator .add) 2) =
      .ok ⟨0, .selected sumOfTwo⟩ := by
    decide +kernel
  obtain ⟨_, hmatched, _, hsuits⟩ :=
    member_matched_as_called (built_vectorClass "scale") hresolve List.mem_cons_self rfl
  have hkind := hsuits membersNamedByKind_vectorClass (fun name hnamed => by cases hnamed)
  exact ⟨hresolve, membersNamedByKind_vectorClass, hkind, hmatched hkind⟩

/-- A member that is ruled out by the number of arguments. -/
def vectorMismatch (kind : SignatureKind) (name : String) (source : Provenance)
    (bound found : Nat) : Candidate where
  signature := vectorMember kind name
  source := source
  positions := []
  bindings := []
  failure := some (.arity bound (some bound) found)

/-- A call that spells out the name of the operator gives the vector it has to the receiver,
and one is missing.  A difference gives both vectors to the one parameter of the method that
has its name, and there is one too many. -/
theorem vectorClass_not_matched_as_called :
    (Program.resolve ⟨vectorClass "operator-", .empty⟩ (vectorCall (.named "operator+") 1) =
        .ok ⟨0, .noMatch [vectorMismatch .operator "operator+" .lexical 2 1]⟩ ∧
      ¬ (vectorMismatch .operator "operator+" .lexical 2 1).MatchedFrom
        ((Callee.named "operator+").receiverFor (vectorMember .operator "operator+"))
        (vectorCall (.named "operator+") 1).args .empty (vectorClass "operator-")) ∧
    Program.resolve ⟨vectorClass "operator-", .empty⟩ (vectorCall (.operator .sub) 2) =
        .ok ⟨0, .noMatch [vectorMismatch .method "operator-" .member 1 2]⟩ ∧
      ¬ (vectorMismatch .method "operator-" .member 1 2).MatchedFrom
        ((Callee.operator .sub).receiverFor (vectorMember .method "operator-"))
        (vectorCall (.operator .sub) 2).args .empty (vectorClass "operator-") := by
  refine ⟨⟨by decide +kernel, fun hmatched => ?_⟩, by decide +kernel, fun hmatched => ?_⟩
  · have hleast := ((hmatched.arity_iff 2 (some 2) 1).mp rfl).2.1
    exact absurd hleast (by decide)
  · have hleast := ((hmatched.arity_iff 1 (some 1) 2).mp rfl).2.1
    exact absurd hleast (by decide)

end CallResolution
