import Mathlib.Data.List.Forall2
import Mathlib.Data.List.TakeWhile
import CallResolution.Proofs.Call.CrewHistory
import CallResolution.Proofs.Call.SequentialBatch

/-!
# Cancelling a batch

The flag may go up at any time.  Whatever the interleaving, the result of the batch then
speaks the truth about what was done: all calls were resolved, or the error of the first
chunk that met one is given, or the number of calls that were resolved before the workers
stopped.

The number is compared with what `resolve` has returned to the workers, not only with what
the workers say.

The merge counts a chunk that was given up as a stopped one, which would hide an error.  It
never comes to that: the worker whose error was seen holds a chunk before it.
-/

namespace CallResolution

/-! ## Errors of single calls -/

namespace Program

theorem checkCall_ne_cancelled (program : Program) (call : CallSite) (completed : Nat) :
    program.checkCall call ≠ .error (.cancelled completed) := by
  intro hcheck
  unfold checkCall at hcheck
  cases hholds : program.graph.holds call.scope with
  | false => simp [hholds, throw, throwThe, MonadExceptOf.throw, bind, Except.bind] at hcheck
  | true =>
      cases hcallee : call.callee with
      | named name => simp [hholds, hcallee, pure, Except.pure] at hcheck
      | operator op =>
          by_cases harity : call.args.length = op.arity
          · simp [hholds, hcallee, harity, pure, Except.pure] at hcheck
          · simp [hholds, hcallee, harity, throw, throwThe, MonadExceptOf.throw] at hcheck

theorem matched_ne_cancelled (program : Program) (call : CallSite) (completed : Nat) :
    program.matched call ≠ .error (.cancelled completed) := by
  intro hmatched
  obtain ⟨_, proposal, _, herror, _⟩ := Traversal.mapM_eq_error_iff.mp hmatched
  cases hmatch : proposal.matchArguments call.args program.table program.graph with
  | ok candidate => simp [hmatch, Except.mapError] at herror
  | error defect => simp [hmatch, Except.mapError] at herror

/-- Cancellation is a result of a batch, never of one call. -/
theorem resolve_ne_cancelled (program : Program) (call : CallSite) (completed : Nat) :
    program.resolve call ≠ .error (.cancelled completed) := by
  intro hresolve
  unfold resolve at hresolve
  cases hcheck : program.checkCall call with
  | error fault =>
      rw [hcheck] at hresolve
      have hfault : fault = .cancelled completed := Except.error.inj hresolve
      exact program.checkCall_ne_cancelled call completed (hfault ▸ hcheck)
  | ok =>
      rw [hcheck] at hresolve
      cases hmatched : program.matched call with
      | error fault =>
          rw [hmatched] at hresolve
          have hfault : fault = .cancelled completed := Except.error.inj hresolve
          exact program.matched_ne_cancelled call completed (hfault ▸ hmatched)
      | ok candidates =>
          rw [hmatched] at hresolve
          cases hresolve

theorem mapM_resolve_ne_cancelled (program : Program) (calls : List CallSite)
    (completed : Nat) : calls.mapM program.resolve ≠ .error (.cancelled completed) := by
  intro herror
  obtain ⟨_, call, _, hresolve, _⟩ := Traversal.mapM_eq_error_iff.mp herror
  exact program.resolve_ne_cancelled call completed hresolve

end Program

/-! ## Merging -/

namespace ChunkEnd

/-- The worker met no error and saw none. -/
def isClean : ChunkEnd → Bool
  | .done _ => true
  | .cancelled _ => true
  | .failed _ => false
  | .abandoned => false

def isCancelled : ChunkEnd → Bool
  | .cancelled _ => true
  | _ => false

/-- How many calls a worker says it has resolved. -/
def completed : ChunkEnd → Nat
  | .done resolved => resolved.length
  | .cancelled completed => completed
  | .failed _ => 0
  | .abandoned => 0

end ChunkEnd

namespace Workers

/-- As long as no error is met, the merge goes on and counts. -/
theorem foldlM_add_of_clean {outcomes : List ChunkEnd}
    (hclean : ∀ outcome ∈ outcomes, outcome.isClean = true) (tally : Tally) :
    ∃ resolved, outcomes.foldlM Tally.add tally =
      .ok ⟨resolved, tally.completed + (outcomes.map ChunkEnd.completed).sum,
        tally.stopped || outcomes.any ChunkEnd.isCancelled⟩ := by
  induction outcomes generalizing tally with
  | nil => exact ⟨tally.resolved, by simp [pure, Except.pure]⟩
  | cons outcome rest ih =>
      rw [List.forall_mem_cons] at hclean
      rw [List.foldlM_cons]
      cases outcome with
      | failed error => cases hclean.1
      | abandoned => cases hclean.1
      | done chunk =>
          obtain ⟨resolved, hfold⟩ := ih hclean.2
            { tally with
              resolved := tally.resolved ++ chunk
              completed := tally.completed + chunk.length }
          refine ⟨resolved, hfold.trans ?_⟩
          simp [ChunkEnd.completed, ChunkEnd.isCancelled, Nat.add_assoc]
      | cancelled completed =>
          obtain ⟨resolved, hfold⟩ := ih hclean.2
            { tally with completed := tally.completed + completed, stopped := true }
          refine ⟨resolved, hfold.trans ?_⟩
          simp [ChunkEnd.completed, ChunkEnd.isCancelled, Nat.add_assoc]

theorem merge_of_cancelled {outcomes : List ChunkEnd}
    (hclean : ∀ outcome ∈ outcomes, outcome.isClean = true)
    (hcancelled : outcomes.any ChunkEnd.isCancelled = true) :
    merge outcomes = .error (.cancelled (outcomes.map ChunkEnd.completed).sum) := by
  obtain ⟨resolved, hfold⟩ := foldlM_add_of_clean hclean Tally.start
  rw [merge, hfold]
  simp [bind, Except.bind, Tally.start, Tally.result, hcancelled]

/-- The first error ends the merge. -/
theorem merge_of_failed {before : List ChunkEnd} (error : CallFault) (after : List ChunkEnd)
    (hbefore : ∀ outcome ∈ before, outcome.isClean = true) :
    merge (before ++ .failed error :: after) = .error error := by
  obtain ⟨resolved, hfold⟩ := foldlM_add_of_clean hbefore Tally.start
  rw [merge, List.foldlM_append, hfold]
  rfl

theorem exists_error_of_failed {outcomes : List ChunkEnd} {error : CallFault}
    (hfailed : .failed error ∈ outcomes) (tally : Tally) :
    ∃ fault, outcomes.foldlM Tally.add tally = .error fault := by
  induction outcomes generalizing tally with
  | nil => cases hfailed
  | cons outcome rest ih =>
      rw [List.foldlM_cons]
      cases hadd : tally.add outcome with
      | error fault => exact ⟨fault, rfl⟩
      | ok next =>
          rcases List.mem_cons.mp hfailed with rfl | hrest
          · cases hadd
          · exact ih hrest next

/-- Either no worker met or saw an error, or the first that did has met one. -/
theorem clean_or_failed {outcomes : List ChunkEnd}
    (hblamed : ∀ place : Nat, outcomes[place]? = some .abandoned →
      ∃ earlier error, earlier < place ∧ outcomes[earlier]? = some (.failed error)) :
    (∀ outcome ∈ outcomes, outcome.isClean = true) ∨
      ∃ before error after, outcomes = before ++ .failed error :: after ∧
        ∀ outcome ∈ before, outcome.isClean = true := by
  have hsplit : outcomes =
      outcomes.takeWhile ChunkEnd.isClean ++ outcomes.dropWhile ChunkEnd.isClean :=
    List.takeWhile_append_dropWhile.symm
  have hbefore : ∀ outcome ∈ outcomes.takeWhile ChunkEnd.isClean, outcome.isClean = true :=
    fun _ hmem => List.mem_takeWhile_imp hmem
  generalize outcomes.takeWhile ChunkEnd.isClean = before at hsplit hbefore
  cases hrest : outcomes.dropWhile ChunkEnd.isClean with
  | nil =>
      rw [hrest, List.append_nil] at hsplit
      exact Or.inl (hsplit ▸ hbefore)
  | cons outcome after =>
      have hunclean : outcome.isClean ≠ true := by
        have hnonempty : outcomes.dropWhile ChunkEnd.isClean ≠ [] := by simp [hrest]
        have hhead := List.head_dropWhile_not ChunkEnd.isClean hnonempty
        simpa [hrest] using hhead
      rw [hrest] at hsplit
      cases outcome with
      | done resolved => exact absurd rfl hunclean
      | cancelled completed => exact absurd rfl hunclean
      | failed error => exact Or.inr ⟨before, error, after, hsplit, hbefore⟩
      | abandoned =>
          obtain ⟨earlier, error, hlt, hget⟩ := hblamed before.length (by simp [hsplit])
          rw [hsplit, List.getElem?_append_left hlt] at hget
          have hclean := hbefore _ (List.mem_of_getElem? hget)
          cases hclean

/-! ## Answers and outcomes -/

/-- The first worker that was given an error was given this one. -/
def FirstError (answers : List (List Answer)) (fault : CallFault) : Prop :=
  ∃ before own after, answers = before ++ own :: after ∧ .error fault ∈ own ∧
    ∀ other ∈ before, ∀ error, .error error ∉ other

section Answers

variable {outcomes : List ChunkEnd} {answers : List (List Answer)}

theorem Backs.of_clean {outcome : ChunkEnd} {own : List Answer} (hbacks : Backs outcome own)
    (hclean : outcome.isClean = true) :
    ∃ resolved : List SettledCall, own = resolved.map .ok ∧
      resolved.length = outcome.completed := by
  cases outcome with
  | done resolved => exact ⟨resolved, hbacks, rfl⟩
  | cancelled completed => exact hbacks
  | failed error => cases hclean
  | abandoned => cases hclean

theorem error_not_mem_of_clean
    (hbacked : List.Forall₂ Backs outcomes answers)
    (hclean : ∀ outcome ∈ outcomes, outcome.isClean = true) :
    ∀ own ∈ answers, ∀ error, .error error ∉ own := by
  intro own hown error herror
  obtain ⟨outcome, hmem, hbacks⟩ := Traversal.exists_of_mem_right hbacked hown
  obtain ⟨resolved, rfl, _⟩ := hbacks.of_clean (hclean outcome hmem)
  simp at herror

theorem length_flatten_of_clean
    (hbacked : List.Forall₂ Backs outcomes answers)
    (hclean : ∀ outcome ∈ outcomes, outcome.isClean = true) :
    answers.flatten.length = (outcomes.map ChunkEnd.completed).sum := by
  induction hbacked with
  | nil => rfl
  | cons hhead _ ih =>
      rw [List.forall_mem_cons] at hclean
      obtain ⟨resolved, rfl, hlength⟩ := hhead.of_clean hclean.1
      rw [List.flatten_cons, List.length_append, List.length_map, hlength, ih hclean.2]
      rfl

theorem firstError_of_failed {before after : List ChunkEnd} {fault : CallFault}
    (hbacked : List.Forall₂ Backs (before ++ .failed fault :: after) answers)
    (hbefore : ∀ outcome ∈ before, outcome.isClean = true) : FirstError answers fault := by
  induction before generalizing answers with
  | nil =>
      obtain ⟨own, others, ⟨resolved, rfl⟩, _, rfl⟩ := List.forall₂_cons_left_iff.mp hbacked
      exact ⟨[], _, others, rfl, by simp, by simp⟩
  | cons outcome rest ih =>
      obtain ⟨own, others, hown, hothers, rfl⟩ := List.forall₂_cons_left_iff.mp hbacked
      rw [List.forall_mem_cons] at hbefore
      obtain ⟨earlier, found, later, rfl, herror, hnone⟩ := ih hothers hbefore.2
      refine ⟨own :: earlier, found, later, rfl, herror, List.forall_mem_cons.mpr ⟨?_, hnone⟩⟩
      obtain ⟨resolved, rfl, _⟩ := hown.of_clean hbefore.1
      simp

/-- No worker says it has resolved more calls than its chunk holds; one that was stopped says
fewer. -/
theorem HonestEntry.completed_le {program : Program} {calls : List CallSite}
    {entry : Nat × List CallSite} {outcome : ChunkEnd}
    (hhonest : HonestEntry program calls entry outcome) :
    outcome.completed ≤ entry.2.length ∧
      (outcome.isCancelled = true → outcome.completed < entry.2.length) := by
  cases outcome with
  | done resolved =>
      have hlength := (Traversal.mapM_eq_ok_iff.mp hhonest).length_eq
      exact ⟨hlength.ge, by simp [ChunkEnd.isCancelled]⟩
  | cancelled completed => exact ⟨hhonest.1.le, fun _ => hhonest.1⟩
  | failed error => exact ⟨Nat.zero_le _, by simp [ChunkEnd.isCancelled]⟩
  | abandoned => exact ⟨Nat.zero_le _, by simp [ChunkEnd.isCancelled]⟩

theorem sum_completed_le {program : Program} {calls : List CallSite}
    {entries : List (Nat × List CallSite)}
    (hhonest : List.Forall₂ (HonestEntry program calls) entries outcomes) :
    (outcomes.map ChunkEnd.completed).sum ≤ (entries.map fun entry => entry.2.length).sum ∧
      (outcomes.any ChunkEnd.isCancelled = true →
        (outcomes.map ChunkEnd.completed).sum <
          (entries.map fun entry => entry.2.length).sum) := by
  induction hhonest with
  | nil => simp
  | cons hhead _ ih =>
      obtain ⟨hle, hlt⟩ := hhead.completed_le
      simp only [List.map_cons, List.sum_cons, List.any_cons, Bool.or_eq_true]
      refine ⟨by omega, ?_⟩
      rintro (hcancelled | hcancelled)
      · have := hlt hcancelled
        omega
      · have := ih.2 hcancelled
        omega

end Answers

/-! ## What a result says -/

/-- What the result of a batch says about the calls and about the answers that the workers
were given. -/
structure TrueResult (program : Program) (calls : List CallSite) (answers : List (List Answer))
    (result : Except CallFault (List SettledCall)) : Prop where
  ok : ∀ settled, result = .ok settled → program.resolveAll calls = .ok settled
  error : (∃ own ∈ answers, ∃ error, .error error ∈ own) →
    ∃ fault, FirstError answers fault ∧ result = .error fault ∧
      ∀ completed, fault ≠ .cancelled completed
  cancelled : ∀ completed, result = .error (.cancelled completed) →
    (∀ own ∈ answers, ∀ error, .error error ∉ own) ∧
      completed = answers.flatten.length ∧ completed < calls.length

section Results

variable {program : Program} {workers : Nat} {calls : List CallSite}
  {outcomes : List ChunkEnd} {answers : List (List Answer)}

theorem trueResult_of_clean
    (hbacked : List.Forall₂ Backs outcomes answers)
    (hhonest : List.Forall₂ (HonestEntry program calls) (chunks workers calls) outcomes)
    (hclean : ∀ outcome ∈ outcomes, outcome.isClean = true) :
    TrueResult program calls answers (merge outcomes) := by
  have hnone := error_not_mem_of_clean hbacked hclean
  cases hcancelled : outcomes.any ChunkEnd.isCancelled with
  | true =>
      rw [merge_of_cancelled hclean hcancelled]
      refine ⟨by simp, fun ⟨own, hown, error, herror⟩ => (hnone own hown error herror).elim, ?_⟩
      intro completed hresult
      obtain rfl : _ = completed := CallFault.cancelled.inj (Except.error.inj hresult)
      refine ⟨hnone, (length_flatten_of_clean hbacked hclean).symm, ?_⟩
      rw [← sum_length_chunks workers calls]
      exact (sum_completed_le hhonest).2 hcancelled
  | false =>
      have hnever : ∀ outcome ∈ outcomes, ∀ completed, outcome ≠ .cancelled completed := by
        rintro _ hmem completed rfl
        have hnot := List.any_eq_false.mp hcancelled _ hmem
        exact hnot rfl
      rw [merge_of_unstopped (unstopped_of_honest hhonest hnever)]
      refine ⟨fun _ hok => hok,
        fun ⟨own, hown, error, herror⟩ => (hnone own hown error herror).elim, ?_⟩
      intro completed hresult
      exact (program.mapM_resolve_ne_cancelled calls completed hresult).elim

theorem trueResult_of_failed {before after : List ChunkEnd} {fault : CallFault}
    (hbacked : List.Forall₂ Backs (before ++ .failed fault :: after) answers)
    (hhonest : List.Forall₂ (HonestEntry program calls) (chunks workers calls)
      (before ++ .failed fault :: after))
    (hbefore : ∀ outcome ∈ before, outcome.isClean = true) :
    TrueResult program calls answers (merge (before ++ .failed fault :: after)) := by
  have hfault : ∀ completed, fault ≠ .cancelled completed := by
    rintro completed rfl
    obtain ⟨⟨first, chunk⟩, _, hfailed⟩ :=
      Traversal.exists_of_mem_right hhonest
        (List.mem_append_right before (List.mem_cons_self ..))
    exact program.mapM_resolve_ne_cancelled chunk completed hfailed
  rw [merge_of_failed fault after hbefore]
  refine ⟨by simp, fun _ => ⟨fault, firstError_of_failed hbacked hbefore, rfl, hfault⟩, ?_⟩
  intro completed hresult
  exact (hfault completed (Except.error.inj hresult)).elim

end Results
end Workers

namespace Program

open Workers

/-- Whenever the flag goes up, every interleaving comes to an end, and with the flag left as it
is, it can go on until every worker has left its chunk.  The merged outcomes are then those of
`resolveByWorkers` with the observations of the run, they are a true result, and the merge has
ended before it comes to a chunk that was given up. -/
theorem cancelled_workers_give_true_result (program : Program) (workers : Nat)
    (calls : List CallSite) :
    (WellFounded fun later earlier : Crew => Advance program earlier later) ∧
    (∀ crew, Run program (Crew.start workers calls) crew ↔
      ∃ answers, Answered program workers calls crew answers) ∧
    ∀ crew answers, Answered program workers calls crew answers →
      (∃ next, Advance program crew next ∧ next.shared.cancelled = crew.shared.cancelled) ∨
      ∃ outcomes result, crew.Finished outcomes ∧
        merge outcomes = result ∧
        program.resolveByWorkers crew.log workers calls = result ∧
        TrueResult program calls answers result ∧
        (∀ completed, result = .error (.cancelled completed) → crew.shared.cancelled = true) ∧
        ∀ taken left, outcomes = taken ++ .abandoned :: left →
          ∃ error, taken.foldlM Tally.add Tally.start = .error error := by
  refine ⟨advance_wellFounded program, fun _ => run_iff_exists_answered, ?_⟩
  intro crew answers hanswered
  have hrun : Run program (Crew.start workers calls) crew :=
    run_iff_exists_answered.mpr ⟨answers, hanswered⟩
  have hsound := sound_of_run hrun
  rcases hsound.exists_turn_or_finished with hnext | ⟨outcomes, hfinished⟩
  · exact Or.inl hnext
  have hbacked : List.Forall₂ Backs outcomes answers := by
    have hworkers := hanswered.accounts
    rwa [hfinished, List.forall₂_map_left_iff] at hworkers
  have hblamed : ∀ place : Nat, outcomes[place]? = some .abandoned →
      ∃ earlier error, earlier < place ∧ outcomes[earlier]? = some (.failed error) :=
    fun _ => (blamed_of_run hrun).of_finished hfinished
  have hhonest := hsound.honest hfinished
  refine Or.inr ⟨outcomes, _, hfinished, rfl, ?_, ?_, ?_, ?_⟩
  · rw [resolveByWorkers, hsound.outcomes_eq hfinished]
  · rcases clean_or_failed hblamed with hclean | ⟨before, fault, after, rfl, hbefore⟩
    · exact trueResult_of_clean hbacked hhonest hclean
    · exact trueResult_of_failed hbacked hhonest hbefore
  · intro completed hresult
    by_contra hlowered
    rw [hsound.merge_eq_resolveAll hfinished (by simpa using hlowered)] at hresult
    exact program.mapM_resolve_ne_cancelled calls completed hresult
  · rintro taken left rfl
    obtain ⟨earlier, error, hlt, hget⟩ := hblamed taken.length (by simp)
    rw [List.getElem?_append_left hlt] at hget
    exact exists_error_of_failed (List.mem_of_getElem? hget) Tally.start

/-- A call of this number from the root namespace or, if it is stray, from a scope that the
empty graph does not hold. -/
def plainCall (id : Nat) (isStray : Bool) : CallSite :=
  ⟨id, .named "f", if isStray then ⟨7⟩ else ScopeId.root, [], ⟨0, 0⟩⟩

/-- Two workers on three calls.  The flag went up when each had resolved one call, so that the
first stopped in the middle of its chunk. -/
def stoppedHalfway : Crew where
  workers := [.left (.cancelled 1), .left (.done [⟨2, .noMatch []⟩])]
  shared := ⟨true, []⟩
  log := Function.update (Function.update (Function.update (Observation.steady false)
    2 ⟨false, none⟩) 0 ⟨false, none⟩) 1 ⟨true, none⟩

theorem answered_stoppedHalfway :
    Answered ⟨.empty, .empty⟩ 2 [plainCall 0 false, plainCall 1 false, plainCall 2 false]
      stoppedHalfway [[.ok ⟨0, .noMatch []⟩], [.ok ⟨2, .noMatch []⟩]] := by
  have hbegun := @Answered.start ⟨.empty, .empty⟩ 2
    [plainCall 0 false, plainCall 1 false, plainCall 2 false]
  have hsecond := hbegun.turn 1 _ _ _ _ rfl (.proceed 2 [] _ [] rfl)
    |>.turn 1 _ _ _ _ rfl (.clear 2 [] _ [] none (by simp))
    |>.turn 1 _ _ _ _ rfl (.settle 2 [] _ [] _ rfl)
  have hfirst := hsecond.turn 0 _ _ _ _ rfl (.proceed 0 [] _ _ rfl)
    |>.turn 0 _ _ _ _ rfl (.clear 0 [] _ _ none (by simp))
    |>.turn 0 _ _ _ _ rfl (.settle 0 [] _ _ _ rfl)
  exact hfirst.raise rfl
    |>.turn 0 _ _ _ _ rfl (.stop 1 _ _ [] rfl)
    |>.turn 1 _ _ _ _ rfl (.finish 3 _)

/-- Three workers on a call each.  The second met an error, which the third saw; then the flag
went up before the first had begun. -/
def stoppedAfterError : Crew where
  workers := [.left (.cancelled 0), .left (.failed (.unknownScope 1 ⟨7⟩)), .left .abandoned]
  shared := ⟨true, [1]⟩
  log := Function.update (Function.update (Function.update (Observation.steady false)
    1 ⟨false, none⟩) 2 ⟨false, some 1⟩) 0 ⟨true, none⟩

theorem answered_stoppedAfterError :
    Answered ⟨.empty, .empty⟩ 3 [plainCall 0 false, plainCall 1 true, plainCall 2 false]
      stoppedAfterError [[], [.error (.unknownScope 1 ⟨7⟩)], []] := by
  have hbegun := @Answered.start ⟨.empty, .empty⟩ 3
    [plainCall 0 false, plainCall 1 true, plainCall 2 false]
  have hfailed := hbegun.turn 1 _ _ _ _ rfl (.proceed 1 [] _ [] rfl)
    |>.turn 1 _ _ _ _ rfl (.clear 1 [] _ [] none (by simp))
    |>.turn 1 _ _ _ _ rfl (.fail 1 [] _ [] _ rfl)
  have hseen := hfailed.turn 2 _ _ _ _ rfl (.proceed 2 [] _ [] rfl)
    |>.turn 2 _ _ _ _ rfl
      (.abandon 2 [] _ [] 1 (by simp [Crew.start, Shared.publish]) (by omega))
  exact hseen.raise rfl
    |>.turn 0 _ _ _ _ rfl (.stop 0 [] _ [] rfl)

/-- A batch that was stopped half-way counts two of three calls.  An error outranks a chunk
that was stopped before it. -/
theorem stopped_results :
    Answered ⟨.empty, .empty⟩ 2 [plainCall 0 false, plainCall 1 false, plainCall 2 false]
        stoppedHalfway [[.ok ⟨0, .noMatch []⟩], [.ok ⟨2, .noMatch []⟩]] ∧
      TrueResult ⟨.empty, .empty⟩ [plainCall 0 false, plainCall 1 false, plainCall 2 false]
        [[.ok ⟨0, .noMatch []⟩], [.ok ⟨2, .noMatch []⟩]] (.error (.cancelled 2)) ∧
      Answered ⟨.empty, .empty⟩ 3 [plainCall 0 false, plainCall 1 true, plainCall 2 false]
        stoppedAfterError [[], [.error (.unknownScope 1 ⟨7⟩)], []] ∧
      TrueResult ⟨.empty, .empty⟩ [plainCall 0 false, plainCall 1 true, plainCall 2 false]
        [[], [.error (.unknownScope 1 ⟨7⟩)], []] (.error (.unknownScope 1 ⟨7⟩)) := by
  refine ⟨answered_stoppedHalfway, ?_, answered_stoppedAfterError, ?_⟩
  · rcases (cancelled_workers_give_true_result _ _ _).2.2 _ _ answered_stoppedHalfway with
      ⟨next, hadvance, hkept⟩ | ⟨outcomes, result, _, _, hresult, htrue, _⟩
    · exact (hadvance.not_finished hkept [_, _] rfl).elim
    · have hvalue : result = .error (.cancelled 2) := by
        rw [← hresult]
        rfl
      exact hvalue ▸ htrue
  · rcases (cancelled_workers_give_true_result _ _ _).2.2 _ _ answered_stoppedAfterError with
      ⟨next, hadvance, hkept⟩ | ⟨outcomes, result, _, _, hresult, htrue, _⟩
    · exact (hadvance.not_finished hkept [_, _, _] rfl).elim
    · have hvalue : result = .error (.unknownScope 1 ⟨7⟩) := by
        rw [← hresult]
        rfl
      exact hvalue ▸ htrue

end Program
end CallResolution
