import CallResolution.Call.Resolution
import CallResolution.Proofs.Call.Dominance
import CallResolution.Proofs.Traversal

/-!
# What matching records

A match keeps the signature and the source of its proposal.  A candidate without a
failure has one supplied rank for every argument of the call, whatever its receiver,
its defaults and its ellipsis contribute; so all viable candidates of one call can be
compared position by position.
-/

namespace CallResolution

/-- Arguments that all bind leave one binding each. -/
theorem bindArguments_length_bindings (table : ConversionTable) (graph : ScopeGraph)
    (position : Nat) (slots : List Slot) (args : List Argument)
    (hfailure : (bindArguments table graph position slots args).failure = none) :
    (bindArguments table graph position slots args).bindings.length = args.length := by
  induction args generalizing position slots with
  | nil => rfl
  | cons arg rest ih =>
      simp only [bindArguments] at hfailure ⊢
      cases hbind : (slots.head?.getD (.parameter .ellipsis)).bind arg table graph with
      | error reason => simp [hbind] at hfailure
      | ok binding =>
          simp only [hbind] at hfailure ⊢
          rw [List.length_cons, List.length_cons, ih (position + 1) slots.tail hfailure]

/-- Defaults have no supplied rank. -/
theorem BoundArguments.length_supplied (bound : BoundArguments)
    (hfailure : bound.failure = none) :
    (bound.positions.filterMap PlaceRank.suppliedRank?).length = bound.bindings.length := by
  have hdefaults : (bound.unfilled.map fun _ => PlaceRank.defaulted).filterMap
      PlaceRank.suppliedRank? = [] := by
    rw [List.filterMap_eq_nil_iff]
    intro place hplace
    obtain ⟨_, _, rfl⟩ := List.mem_map.mp hplace
    rfl
  have hbound : (bound.bindings.map fun binding =>
      PlaceRank.supplied binding.rank).filterMap PlaceRank.suppliedRank? =
        bound.bindings.map (·.rank) := by
    rw [List.filterMap_map]
    exact List.filterMap_eq_map_iff_forall_eq_some.mpr fun binding _ => rfl
  simp only [BoundArguments.positions, hfailure, List.filterMap_append, hdefaults, hbound,
    List.append_nil, List.length_map]

namespace Proposal

/-- What a well-formed proposal is matched to: refused by the number of arguments, or
bound as far as possible. -/
def matchedTo (proposal : Proposal) (args : List Argument) (table : ConversionTable)
    (graph : ScopeGraph) : Candidate :=
  if proposal.signature.acceptsArguments args.length then
    proposal.ofBound (bindArguments table graph 0 proposal.signature.slots args)
  else
    proposal.arityMismatch args.length

theorem matchArguments_eq_ok_iff (proposal : Proposal) (args : List Argument)
    (table : ConversionTable) (graph : ScopeGraph) (candidate : Candidate) :
    proposal.matchArguments args table graph = .ok candidate ↔
      proposal.signature.check = .ok () ∧ candidate = proposal.matchedTo args table graph := by
  rw [matchArguments, Traversal.bind_eq_ok_iff, matchedTo]
  constructor
  · rintro ⟨_, hcheck, hcandidate⟩
    refine ⟨hcheck, ?_⟩
    split at hcandidate
    · rename_i haccepts
      rw [if_pos haccepts]
      exact (Except.ok.inj hcandidate).symm
    · rename_i hrefuses
      rw [if_neg hrefuses]
      exact (Except.ok.inj hcandidate).symm
  · rintro ⟨hcheck, rfl⟩
    refine ⟨(), hcheck, ?_⟩
    split
    · rfl
    · rfl

/-- A viable candidate has one supplied rank for every argument. -/
theorem length_suppliedRanks_of_isViable {proposal : Proposal} {args : List Argument}
    {table : ConversionTable} {graph : ScopeGraph} {candidate : Candidate}
    (hmatch : proposal.matchArguments args table graph = .ok candidate)
    (hviable : candidate.isViable = true) :
    candidate.suppliedRanks.length = args.length := by
  obtain ⟨_, rfl⟩ := (matchArguments_eq_ok_iff proposal args table graph candidate).mp hmatch
  unfold matchedTo at hviable ⊢
  split at hviable
  · rename_i haccepts
    have hfailure :
        (bindArguments table graph 0 proposal.signature.slots args).failure = none := by
      simpa [Candidate.isViable, ofBound] using hviable
    rw [if_pos haccepts, Candidate.suppliedRanks, ofBound,
      BoundArguments.length_supplied _ hfailure,
      bindArguments_length_bindings table graph 0 proposal.signature.slots args hfailure]
  · simp [Candidate.isViable, arityMismatch] at hviable

end Proposal

namespace Program

/-- The candidates of a call are the matches of what was collected, in order. -/
theorem matched_eq_ok_iff (program : Program) (call : CallSite) (candidates : List Candidate) :
    program.matched call = .ok candidates ↔
      List.Forall₂
        (fun proposal candidate =>
          proposal.matchArguments call.args program.table program.graph = .ok candidate)
        (program.collected call) candidates := by
  rw [matched, Traversal.mapM_eq_ok_iff]
  simp only [Traversal.mapError_eq_ok_iff]

/-- If all that was collected is well-formed, every proposal has a match. -/
theorem matched_of_check {program : Program} {call : CallSite}
    (hcheck : ∀ proposal ∈ program.collected call, proposal.signature.check = .ok ()) :
    program.matched call = .ok ((program.collected call).map fun proposal =>
      proposal.matchedTo call.args program.table program.graph) := by
  rw [matched_eq_ok_iff, List.forall₂_map_right_iff, List.forall₂_same]
  intro proposal hmem
  exact (proposal.matchArguments_eq_ok_iff _ _ _ _).mpr ⟨hcheck proposal hmem, rfl⟩

/-- A call that resolves passes its checks and is settled by its candidates. -/
theorem resolve_eq_ok_iff (program : Program) (call : CallSite) (settled : SettledCall) :
    program.resolve call = .ok settled ↔
      program.checkCall call = .ok () ∧
        ∃ candidates, program.matched call = .ok candidates ∧
          settled = ⟨call.id, Resolution.ofCandidates candidates⟩ := by
  rw [resolve, Traversal.bind_eq_ok_iff]
  constructor
  · rintro ⟨_, hcheck, hrest⟩
    obtain ⟨candidates, hmatched, hsettled⟩ := Traversal.bind_eq_ok_iff.mp hrest
    exact ⟨hcheck, candidates, hmatched, (Except.ok.inj hsettled).symm⟩
  · rintro ⟨hcheck, candidates, hmatched, rfl⟩
    exact ⟨(), hcheck, Traversal.bind_eq_ok_iff.mpr ⟨candidates, hmatched, rfl⟩⟩

/-- If all that was collected is well-formed, only the checks before look-up can fail. -/
theorem resolve_of_check {program : Program} {call : CallSite}
    (hcheck : ∀ proposal ∈ program.collected call, proposal.signature.check = .ok ()) :
    program.resolve call = (program.checkCall call).map fun _ =>
      ⟨call.id, Resolution.ofCandidates ((program.collected call).map fun proposal =>
        proposal.matchedTo call.args program.table program.graph)⟩ := by
  rw [resolve, matched_of_check hcheck]
  cases program.checkCall call with
  | error fault => rfl
  | ok passed => rfl

/-- All viable candidates of one call have as many supplied ranks as the call has
arguments. -/
theorem suppliedCount_viable {program : Program} {call : CallSite} {candidates : List Candidate}
    (hmatched : program.matched call = .ok candidates) :
    Candidate.SuppliedCount (candidates.filter (·.isViable)) call.args.length := by
  intro candidate hmem
  obtain ⟨hcandidate, hviable⟩ := List.mem_filter.mp hmem
  have hforall := (matched_eq_ok_iff program call candidates).mp hmatched
  obtain ⟨proposal, _, hmatch⟩ := Traversal.exists_of_mem_right hforall hcandidate
  exact Proposal.length_suppliedRanks_of_isViable hmatch hviable

end Program
end CallResolution
