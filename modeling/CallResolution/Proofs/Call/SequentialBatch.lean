import CallResolution.Proofs.Call.CrewInvariant

/-!
# Workers give the sequential result

Under every interleaving in which the flag stays down, the workers of a batch give what
resolving the call sites one after the other gives.

Merging takes the outcomes in the order of the chunks.  The chunk that holds the first
failing call is worked through up to that call, because no call before it fails, and the
merge meets it before any chunk that was given up.
-/

namespace CallResolution
namespace Workers

/-! ## Merging -/

/-- An outcome of a batch that was not cancelled. -/
def Unstopped (program : Program) (calls : List CallSite) (entry : Nat × List CallSite)
    (outcome : ChunkEnd) : Prop :=
  Honest program calls entry.1 entry.2 outcome ∧ ∀ completed, outcome ≠ .cancelled completed

theorem unstopped_of_honest {program : Program} {calls : List CallSite}
    {entries : List (Nat × List CallSite)} {outcomes : List ChunkEnd}
    (hhonest : List.Forall₂ (HonestEntry program calls) entries outcomes)
    (hnever : ∀ outcome ∈ outcomes, ∀ completed, outcome ≠ .cancelled completed) :
    List.Forall₂ (Unstopped program calls) entries outcomes := by
  induction hhonest with
  | nil => exact .nil
  | cons hhead _ ih =>
      rw [List.forall_mem_cons] at hnever
      exact .cons ⟨hhead, hnever.1⟩ (ih hnever.2)

/-- If no call before a chunk fails and the chunk resolves, no call before its end fails. -/
theorem not_fails_of_resolved {program : Program} {calls chunk more : List CallSite}
    {resolved : List SettledCall} {start size : Nat}
    (hearlier : ∀ index, index < start → ¬ Fails program calls index)
    (hsplit : calls.drop start = chunk ++ more) (hchunk : (calls.drop start).take size = chunk)
    (hresolved : chunk.mapM program.resolve = .ok resolved) :
    ∀ index, index < start + size → ¬ Fails program calls index := by
  intro index hindex hfails
  have hinside : index < start + chunk.length := by
    obtain ⟨_, _, hfound, _⟩ := hfails
    have hbound := (List.getElem?_eq_some_iff.mp hfound).1
    rw [← hchunk, List.length_take, List.length_drop]
    omega
  have hslice : chunk ++ more <+: calls.drop start := by rw [hsplit]
  exact hearlier index (lt_first_of_fails hslice hresolved hfails hinside) hfails

/-- Merging the outcomes of the chunks from `start` on, when no call before `start` fails,
gives what resolving the calls from `start` on gives. -/
theorem foldlM_add_of_unstopped {program : Program} {calls : List CallSite} {size : Nat}
    (hsize : 0 < size) (pieces start : Nat) (list : List CallSite) (outcomes : List ChunkEnd)
    (tally : Tally) (hlist : list = calls.drop start) (hpieces : list.length ≤ pieces)
    (hearlier : ∀ index, index < start → ¬ Fails program calls index)
    (houtcomes : List.Forall₂ (Unstopped program calls) (chunksFrom size pieces start list)
      outcomes) :
    outcomes.foldlM Tally.add tally =
      (list.mapM program.resolve).map fun resolved =>
        { tally with
          resolved := tally.resolved ++ resolved
          completed := tally.completed + resolved.length } := by
  -- The induction takes one chunk off the front; its outcome decides whether to go on.
  induction pieces generalizing start list outcomes tally with
  | zero =>
      have hnil : list = [] := List.length_eq_zero_iff.mp (Nat.le_zero.mp hpieces)
      subst hnil
      simp only [chunksFrom, List.forall₂_nil_left_iff] at houtcomes
      subst houtcomes
      simp [pure, Except.pure, Except.map]
  | succ pieces ih =>
      cases list with
      | nil =>
          simp only [chunksFrom, List.forall₂_nil_left_iff] at houtcomes
          subst houtcomes
          simp [pure, Except.pure, Except.map]
      | cons call rest =>
          simp only [chunksFrom] at houtcomes
          obtain ⟨outcome, outcomes', ⟨hhonest, hnever⟩, hothers, rfl⟩ :=
            List.forall₂_cons_left_iff.mp houtcomes
          generalize hchunk : (call :: rest).take size = chunk at *
          generalize hmore : (call :: rest).drop size = more at *
          have hsplit : call :: rest = chunk ++ more := by
            rw [← hchunk, ← hmore, List.take_append_drop]
          rw [hsplit, List.mapM_append, List.foldlM_cons]
          cases outcome with
          | cancelled completed => exact (hnever completed rfl).elim
          | abandoned =>
              -- A chunk is given up only for a failure before it, and there is none.
              obtain ⟨earlier, hbefore, hfails⟩ := hhonest
              exact (hearlier earlier hbefore hfails).elim
          | failed error =>
              have herror : chunk.mapM program.resolve = .error error := hhonest
              rw [herror]
              rfl
          | done resolved =>
              have hok : chunk.mapM program.resolve = .ok resolved := hhonest
              have hdrop : more = calls.drop (start + size) := by
                rw [← hmore, hlist, List.drop_drop]
              have hlength : more.length ≤ pieces := by
                rw [← hmore, List.length_drop]
                omega
              have hearlier' : ∀ index, index < start + size → ¬ Fails program calls index :=
                not_fails_of_resolved hearlier (hlist ▸ hsplit) (hlist ▸ hchunk) hok
              have hrec := ih (start + size) more outcomes'
                { tally with
                  resolved := tally.resolved ++ resolved
                  completed := tally.completed + resolved.length } hdrop hlength hearlier' hothers
              rw [hok]
              simp only [Tally.add, bind, Except.bind]
              rw [hrec]
              cases more.mapM program.resolve with
              | error error => rfl
              | ok others =>
                  simp [Except.map, pure, Except.pure, Nat.add_assoc]

/-- If no call site is left unresolved for the flag, merging gives the sequential result. -/
theorem merge_of_unstopped {program : Program} {workers : Nat} {calls : List CallSite}
    {outcomes : List ChunkEnd}
    (hunstopped : List.Forall₂ (Unstopped program calls) (chunks workers calls) outcomes) :
    merge outcomes = program.resolveAll calls := by
  unfold chunks at hunstopped
  cases calls with
  | nil =>
      simp only [List.length_nil, chunksFrom, List.forall₂_nil_left_iff] at hunstopped
      subst hunstopped
      rfl
  | cons call rest =>
      have hfold := foldlM_add_of_unstopped (chunkSize_pos (by simp)) _ 0 (call :: rest)
        outcomes Tally.start rfl le_rfl (by simp) hunstopped
      rw [merge, hfold, Program.resolveAll]
      cases (call :: rest).mapM program.resolve with
      | error error => rfl
      | ok resolved =>
          simp [Except.map, bind, Except.bind, Tally.start, Tally.result]

/-- The outcomes of a finished crew, each with the chunk that it belongs to. -/
theorem Sound.honest {program : Program} {workers : Nat} {calls : List CallSite}
    {crew : Crew} (hsound : Sound program workers calls crew) {outcomes : List ChunkEnd}
    (hfinished : crew.Finished outcomes) :
    List.Forall₂ (HonestEntry program calls) (chunks workers calls) outcomes := by
  have hlength : (chunks workers calls).length = outcomes.length := by
    rw [← hsound.length_eq, hfinished, List.length_map]
  rw [List.forall₂_iff_get]
  refine ⟨hlength, fun place hplace hplace' => ?_⟩
  have hworker : crew.workers[place]? = some (.left (outcomes.get ⟨place, hplace'⟩)) := by
    rw [hfinished, List.getElem?_map, List.getElem?_eq_getElem hplace']
    rfl
  have htracks := hsound.tracks place _ _ _ (List.getElem?_eq_getElem hplace) hworker
  cases htracks with
  | left _ hhonest => exact hhonest

/-- A worker of a finished crew was not cancelled unless the flag is up. -/
theorem Sound.not_cancelled {program : Program} {workers : Nat} {calls : List CallSite}
    {crew : Crew} (hsound : Sound program workers calls crew) {outcomes : List ChunkEnd}
    (hfinished : crew.Finished outcomes) (hlowered : crew.shared.cancelled = false) :
    ∀ outcome ∈ outcomes, ∀ completed, outcome ≠ .cancelled completed := by
  rintro _ hmem completed rfl
  obtain ⟨place, hget⟩ := List.getElem?_of_mem hmem
  have hworker : crew.workers[place]? = some (.left (.cancelled completed)) := by
    rw [hfinished, List.getElem?_map, hget]
    rfl
  have hraised := hsound.cancelled place completed hworker
  rw [hlowered] at hraised
  contradiction

/-- A finished crew has the outcomes that its log leads to. -/
theorem Sound.outcomes_eq {program : Program} {workers : Nat} {calls : List CallSite}
    {crew : Crew} (hsound : Sound program workers calls crew) {outcomes : List ChunkEnd}
    (hfinished : crew.Finished outcomes) :
    (chunks workers calls).map (fun (first, chunk) =>
      program.workThrough crew.log first [] chunk) = outcomes := by
  apply List.ext_getElem?
  intro place
  have hworker : crew.workers[place]? = outcomes[place]?.map .left := by
    rw [hfinished, List.getElem?_map]
  rw [List.getElem?_map]
  cases hchunk : (chunks workers calls)[place]? with
  | none =>
      have hbound := List.getElem?_eq_none_iff.mp hchunk
      rw [← hsound.length_eq, hfinished, List.length_map] at hbound
      rw [List.getElem?_eq_none_iff.mpr hbound]
      rfl
  | some entry =>
      obtain ⟨first, chunk⟩ := entry
      have hbound := (List.getElem?_eq_some_iff.mp hchunk).1
      rw [← hsound.length_eq, hfinished, List.length_map] at hbound
      rw [List.getElem?_eq_getElem hbound] at hworker ⊢
      have htracks := hsound.tracks place first chunk _ hchunk hworker
      cases htracks with
      | left _ _ hsame => exact congrArg some (hsame crew.log fun _ _ _ => rfl)

/-- A crew can go on by a turn of a worker, or it has finished. -/
theorem Sound.exists_turn_or_finished {program : Program} {workers : Nat}
    {calls : List CallSite} {crew : Crew} (hsound : Sound program workers calls crew) :
    (∃ next, Advance program crew next ∧ next.shared.cancelled = crew.shared.cancelled) ∨
      ∃ outcomes, crew.Finished outcomes := by
  by_cases hbusy : ∃ (place : Nat) (moment : Moment) (index : Nat)
      (resolved : List SettledCall) (rest : List CallSite),
      crew.workers[place]? = some (.busy moment index resolved rest)
  · obtain ⟨place, moment, index, resolved, rest, hworker⟩ := hbusy
    obtain ⟨_, _, _, htracks⟩ := hsound.exists_tracks hworker
    obtain ⟨next, shared', log', hturn⟩ := htracks.exists_turn
    exact Or.inl ⟨_, .turn crew place _ next shared' log' hworker hturn, hturn.cancelled_eq⟩
  · push Not at hbusy
    have hleft : crew.workers ∈ Set.range (List.map Worker.left) := by
      rw [Set.range_list_map]
      intro worker hworker
      obtain ⟨place, hget⟩ := List.getElem?_of_mem hworker
      cases worker with
      | busy moment index resolved rest =>
          exact (hbusy place moment index resolved rest hget).elim
      | left outcome => exact ⟨outcome, rfl⟩
    obtain ⟨outcomes, houtcomes⟩ := hleft
    exact Or.inr ⟨outcomes, houtcomes.symm⟩

/-- As long as the flag is down, a crew can go on or has finished. -/
theorem Sound.exists_advance_or_finished {program : Program} {workers : Nat}
    {calls : List CallSite} {crew : Crew} (hsound : Sound program workers calls crew)
    (hlowered : crew.shared.cancelled = false) :
    (∃ next, Advance program crew next ∧ next.shared.cancelled = false) ∨
      ∃ outcomes, crew.Finished outcomes := by
  rw [← hlowered]
  exact hsound.exists_turn_or_finished

/-- Merging the outcomes of a finished crew gives the sequential result. -/
theorem Sound.merge_eq_resolveAll {program : Program} {workers : Nat}
    {calls : List CallSite} {crew : Crew} (hsound : Sound program workers calls crew)
    {outcomes : List ChunkEnd} (hfinished : crew.Finished outcomes)
    (hlowered : crew.shared.cancelled = false) :
    merge outcomes = program.resolveAll calls :=
  merge_of_unstopped (unstopped_of_honest (hsound.honest hfinished)
    (hsound.not_cancelled hfinished hlowered))

end Workers

namespace Program

open Workers

/-- Every interleaving of the workers comes to an end.  While the flag stays down, it can
go on until every worker has left its chunk, and then the merged outcomes, which are also
those of `resolveByWorkers` with the observations of the run, are the result of resolving
the calls in order: all results in order, or the error of the first call that fails. -/
theorem interleaved_workers_give_resolveAll (program : Program) (workers : Nat)
    (calls : List CallSite) :
    (WellFounded fun later earlier : Crew => Advance program earlier later) ∧
    ∀ crew, Run program (Crew.start workers calls) crew → crew.shared.cancelled = false →
      (∃ next, Advance program crew next ∧ next.shared.cancelled = false) ∨
      ∃ outcomes result, crew.Finished outcomes ∧
        merge outcomes = result ∧
        program.resolveByWorkers crew.log workers calls = result ∧
        program.resolveAll calls = result ∧
        (∀ settled, result = .ok settled ↔
          List.Forall₂ (fun call entry => program.resolve call = .ok entry) calls settled) ∧
        (∀ error, result = .error error ↔
          ∃ index call, calls[index]? = some call ∧ program.resolve call = .error error ∧
            ∀ earlier ∈ calls.take index, ∃ entry, program.resolve earlier = .ok entry) := by
  refine ⟨advance_wellFounded program, fun crew hrun hlowered => ?_⟩
  have hsound := sound_of_run hrun
  rcases hsound.exists_advance_or_finished hlowered with hnext | ⟨outcomes, hfinished⟩
  · exact Or.inl hnext
  · have hmerge := hsound.merge_eq_resolveAll hfinished hlowered
    refine Or.inr ⟨outcomes, _, hfinished, hmerge, ?_, rfl, ?_, ?_⟩
    · rw [resolveByWorkers, hsound.outcomes_eq hfinished, hmerge]
    · intro settled
      exact Traversal.mapM_eq_ok_iff
    · intro error
      exact Traversal.mapM_eq_error_iff

/-- Two calls from scopes that the empty graph does not hold. -/
def strayCalls : List CallSite :=
  [⟨0, .named "f", ⟨7⟩, [], ⟨0, 0⟩⟩, ⟨1, .named "f", ⟨9⟩, [], ⟨0, 0⟩⟩]

/-- Two workers of which the second met its error first, and the first saw it. -/
def secondFailedFirst : Crew where
  workers := [.left (.failed (.unknownScope 0 ⟨7⟩)), .left (.failed (.unknownScope 1 ⟨9⟩))]
  shared := ⟨false, [0, 1]⟩
  log := Function.update (Function.update (Observation.steady false) 1 ⟨false, none⟩) 0
    ⟨false, some 1⟩

theorem run_secondFailedFirst :
    Run ⟨.empty, .empty⟩ (Crew.start 2 strayCalls) secondFailedFirst := by
  apply Relation.ReflTransGen.head (.turn _ 1 _ _ _ _ rfl (.proceed 1 [] _ [] rfl))
  apply Relation.ReflTransGen.head (.turn _ 1 _ _ _ _ rfl (.clear 1 [] _ [] none (by simp)))
  apply Relation.ReflTransGen.head (.turn _ 1 _ _ _ _ rfl (.fail 1 [] _ [] _ rfl))
  apply Relation.ReflTransGen.head (.turn _ 0 _ _ _ _ rfl (.proceed 0 [] _ [] rfl))
  apply Relation.ReflTransGen.head
    (.turn _ 0 _ _ _ _ rfl (.clear 0 [] _ [] (some 1) (by simp [Crew.start, Shared.publish])))
  apply Relation.ReflTransGen.single
  exact .turn _ 0 _ _ _ _ rfl (.fail 0 [] _ [] _ rfl)

/-- The earlier of two errors is the result, although the later one was met first. -/
theorem secondFailedFirst_result :
    Run ⟨.empty, .empty⟩ (Crew.start 2 strayCalls) secondFailedFirst ∧
      secondFailedFirst.shared.cancelled = false ∧
      resolveByWorkers ⟨.empty, .empty⟩ secondFailedFirst.log 2 strayCalls =
        .error (.unknownScope 0 ⟨7⟩) := by
  refine ⟨run_secondFailedFirst, rfl, ?_⟩
  have hresult := (interleaved_workers_give_resolveAll ⟨.empty, .empty⟩ 2 strayCalls).2
    secondFailedFirst run_secondFailedFirst rfl
  rcases hresult with ⟨next, hadvance, hlowered⟩ | ⟨_, _, _, _, hworkers, hall, _⟩
  · cases hadvance with
    | turn place _ _ _ _ hworker hturn =>
        cases hturn <;> rcases place with _ | _ | _ <;> simp [secondFailedFirst] at hworker
    | raise => simp at hlowered
  · rw [hworkers, ← hall]
    rfl

end Program
end CallResolution
