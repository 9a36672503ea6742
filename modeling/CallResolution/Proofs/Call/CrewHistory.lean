import Mathlib.Data.List.Forall2
import CallResolution.Proofs.Call.CrewInvariant

/-!
# What a run leaves behind

Two things that hold throughout an interleaving, whether or not the flag goes up.

What `resolve` has returned to each worker is recorded beside the run.  What a worker says
it has done, inside its chunk or by its outcome, fits that record.

A chunk is given up only after the worker of an EARLIER chunk has met an error.  That is more
than knowing that some earlier call fails: a worker that was stopped before such a call has
not met it.
-/

namespace CallResolution
namespace Workers

/-! ## What was returned to each worker -/

/-- What `resolve` returns for one call. -/
abbrev Answer := Except CallFault SettledCall

/-- What `resolve` returns to a worker in its next turn, if it is about to resolve a call. -/
def Worker.answer? (program : Program) : Worker → Option Answer
  | .busy .beforeCall _ _ (call :: _) => some (program.resolve call)
  | _ => none

/-- An interleaving from the start up to a crew, with the answers that each worker has been
given, oldest first. -/
inductive Answered (program : Program) (workers : Nat) (calls : List CallSite) :
    Crew → List (List Answer) → Prop
  | start : Answered program workers calls (Crew.start workers calls)
      ((chunks workers calls).map fun _ => [])
  | turn {crew : Crew} {answers : List (List Answer)}
      (hanswered : Answered program workers calls crew answers) (place : Nat)
      (worker next : Worker) (shared : Shared) (log : Nat → Observation)
      (hworker : crew.workers[place]? = some worker)
      (hturn : Turn program crew.shared crew.log worker next shared log) :
      Answered program workers calls ⟨crew.workers.set place next, shared, log⟩
        (answers.modify place (· ++ (worker.answer? program).toList))
  | raise {crew : Crew} {answers : List (List Answer)}
      (hanswered : Answered program workers calls crew answers)
      (hlowered : crew.shared.cancelled = false) :
      Answered program workers calls { crew with shared := { crew.shared with cancelled := true } }
        answers

/-- Recording the answers changes nothing about the run. -/
theorem run_iff_exists_answered {program : Program} {workers : Nat} {calls : List CallSite}
    {crew : Crew} :
    Run program (Crew.start workers calls) crew ↔
      ∃ answers, Answered program workers calls crew answers := by
  constructor
  · intro hrun
    induction hrun with
    | refl => exact ⟨_, .start⟩
    | tail _ hadvance ih =>
        obtain ⟨answers, hanswered⟩ := ih
        cases hadvance with
        | turn place worker next shared log hworker hturn =>
            exact ⟨_, hanswered.turn place worker next shared log hworker hturn⟩
        | raise hlowered => exact ⟨_, hanswered.raise hlowered⟩
  · rintro ⟨answers, hanswered⟩
    induction hanswered with
    | start => exact .refl
    | turn _ place worker next shared log hworker hturn ih =>
        exact ih.tail (.turn _ place worker next shared log hworker hturn)
    | raise _ hlowered ih => exact ih.tail (.raise _ hlowered)

/-- The answers that a worker has been given fit the outcome that it leaves with. -/
def Backs : ChunkEnd → List Answer → Prop
  | .done resolved, own => own = resolved.map .ok
  | .failed error, own =>
      ∃ resolved : List SettledCall, own = resolved.map .ok ++ [.error error]
  | .cancelled completed, own =>
      ∃ resolved : List SettledCall, own = resolved.map .ok ∧ resolved.length = completed
  | .abandoned, own => ∃ resolved : List SettledCall, own = resolved.map .ok

/-- The answers that a worker has been given fit what it holds, inside its chunk and after. -/
def Accounts : Worker → List Answer → Prop
  | .busy _ _ resolved _, own => own = resolved.map .ok
  | .left outcome, own => Backs outcome own

/-- Only a worker inside its chunk takes turns. -/
theorem Turn.exists_busy {program : Program} {shared shared' : Shared}
    {log log' : Nat → Observation} {worker next : Worker}
    (hturn : Turn program shared log worker next shared' log') :
    ∃ moment index resolved rest, worker = .busy moment index resolved rest := by
  cases hturn with
  | _ => exact ⟨_, _, _, _, rfl⟩

theorem Turn.accounts {program : Program} {shared shared' : Shared}
    {log log' : Nat → Observation} {worker next : Worker}
    (hturn : Turn program shared log worker next shared' log') {own : List Answer}
    (haccounts : Accounts worker own) :
    Accounts next (own ++ (worker.answer? program).toList) := by
  obtain ⟨moment, index, resolved, rest, rfl⟩ := hturn.exists_busy
  obtain rfl : own = resolved.map .ok := haccounts
  cases hturn with
  | finish => simp [Accounts, Backs, Worker.answer?]
  | stop => exact ⟨resolved, by simp [Worker.answer?], rfl⟩
  | proceed => simp [Accounts, Worker.answer?]
  | abandon => exact ⟨resolved, by simp [Worker.answer?]⟩
  | clear => simp [Accounts, Worker.answer?]
  -- Only these two turns resolve a call, so that an answer is added.
  | settle _ _ call rest result hresolve => simp [Accounts, Worker.answer?, hresolve]
  | fail _ _ call rest error hresolve => exact ⟨resolved, by simp [Worker.answer?, hresolve]⟩

/-- A change of two lists at one place keeps a relation that holds there after it. -/
theorem forall₂_set_modify {α β : Type} {relation : α → β → Prop} {left : List α}
    {right : List β} (hrelated : List.Forall₂ relation left right) {place : Nat} {a next : α}
    {change : β → β} (ha : left[place]? = some a)
    (hstep : ∀ b, relation a b → relation next (change b)) :
    List.Forall₂ relation (left.set place next) (right.modify place change) := by
  induction hrelated generalizing place with
  | nil => simp at ha
  | cons hhead htail ih =>
      cases place with
      | zero =>
          obtain rfl : _ = a := Option.some.inj ha
          exact .cons (hstep _ hhead) htail
      | succ place => exact .cons hhead (ih ha)

theorem Answered.accounts {program : Program} {workers : Nat} {calls : List CallSite}
    {crew : Crew} {answers : List (List Answer)}
    (hanswered : Answered program workers calls crew answers) :
    List.Forall₂ Accounts crew.workers answers := by
  induction hanswered with
  | start =>
      simp only [Crew.start, List.forall₂_map_left_iff, List.forall₂_map_right_iff,
        List.forall₂_same]
      intro entry _
      rfl
  | turn _ place worker next shared log hworker hturn ih =>
      exact forall₂_set_modify ih hworker fun own => hturn.accounts
  | raise _ _ ih => exact ih

/-! ## Who is to blame for a chunk that was given up -/

section Blame

variable {program : Program} {workers : Nat} {calls : List CallSite} {crew next : Crew}

/-- What a worker has left it has left for good. -/
theorem Advance.left_kept (hadvance : Advance program crew next) {place : Nat}
    {outcome : ChunkEnd} (hleft : crew.workers[place]? = some (.left outcome)) :
    next.workers[place]? = some (.left outcome) := by
  cases hadvance with
  | raise => exact hleft
  | turn other worker worker' shared' log' hworker hturn =>
      have hne : other ≠ place := by
        rintro rfl
        rw [hleft] at hworker
        obtain rfl := Option.some.inj hworker
        cases hturn
      rw [List.getElem?_set_ne hne]
      exact hleft

theorem Turn.mem_published {shared shared' : Shared} {log log' : Nat → Observation}
    {worker worker' : Worker} (hturn : Turn program shared log worker worker' shared' log')
    {seen : Nat} (hseen : seen ∈ shared'.published) :
    seen ∈ shared.published ∨ ∃ moment resolved call rest error,
      worker = .busy moment seen resolved (call :: rest) ∧ worker' = .left (.failed error) := by
  cases hturn with
  | fail index resolved call rest error =>
      rcases Shared.mem_published_publish hseen with rfl | hold
      · exact Or.inr ⟨_, resolved, call, rest, error, rfl, rfl⟩
      · exact Or.inl hold
  | _ => exact Or.inl hseen

theorem Turn.of_abandoned {shared shared' : Shared} {log log' : Nat → Observation}
    {worker : Worker}
    (hturn : Turn program shared log worker (.left .abandoned) shared' log') :
    ∃ moment index resolved call rest, worker = .busy moment index resolved (call :: rest) ∧
      ∃ seen ∈ shared.published, seen < index := by
  cases hturn with
  | abandon index resolved call rest seen hseen hearlier =>
      exact ⟨_, index, resolved, call, rest, rfl, seen, hseen, hearlier⟩

/-- A worker stays between the first index of its own chunk and that of the next. -/
theorem Sound.index_bounds (hsound : Sound program workers calls crew) {place : Nat}
    {moment : Moment} {index : Nat} {resolved : List SettledCall} {call : CallSite}
    {rest : List CallSite}
    (hworker : crew.workers[place]? = some (.busy moment index resolved (call :: rest))) :
    place * chunkSize workers calls.length ≤ index ∧
      index < (place + 1) * chunkSize workers calls.length := by
  obtain ⟨first, chunk, hchunk, htracks⟩ := hsound.exists_tracks hworker
  obtain ⟨hlow, hhigh⟩ := htracks.index_mem
  obtain ⟨hfirst, hslice⟩ := getElem?_chunksFrom hchunk
  have hlength : chunk.length ≤ chunkSize workers calls.length := by
    rw [hslice]
    exact List.length_take_le _ _
  rw [Nat.succ_mul]
  omega

/-- Every published index stands at or behind the start of a chunk whose worker met an
error, and every chunk that was given up has such a chunk before it. -/
structure Blamed (workers : Nat) (calls : List CallSite) (crew : Crew) : Prop where
  published : ∀ seen ∈ crew.shared.published, ∃ place error,
    place * chunkSize workers calls.length ≤ seen ∧
      crew.workers[place]? = some (.left (.failed error))
  abandoned : ∀ place : Nat, crew.workers[place]? = some (.left .abandoned) →
    ∃ earlier error, earlier < place ∧ crew.workers[earlier]? = some (.left (.failed error))

/-- The worker that is blamed for a published index holds a chunk before the one in which
the index is seen. -/
theorem Blamed.exists_earlier (hblamed : Blamed workers calls crew)
    (hsound : Sound program workers calls crew) {place : Nat} {moment : Moment} {index : Nat}
    {resolved : List SettledCall} {call : CallSite} {rest : List CallSite}
    (hworker : crew.workers[place]? = some (.busy moment index resolved (call :: rest)))
    {seen : Nat} (hseen : seen ∈ crew.shared.published) (hearlier : seen < index) :
    ∃ earlier error, earlier < place ∧
      crew.workers[earlier]? = some (.left (.failed error)) := by
  obtain ⟨earlier, error, hstart, hfailed⟩ := hblamed.published seen hseen
  obtain ⟨_, hend⟩ := hsound.index_bounds hworker
  have hlt : earlier < place + 1 := by
    apply Nat.lt_of_mul_lt_mul_right
    calc
      earlier * chunkSize workers calls.length ≤ seen := hstart
      _ < index := hearlier
      _ < (place + 1) * chunkSize workers calls.length := hend
  have hne : earlier ≠ place := by
    rintro rfl
    rw [hworker] at hfailed
    cases hfailed
  exact ⟨earlier, error, by omega, hfailed⟩

theorem Blamed.advance (hblamed : Blamed workers calls crew)
    (hsound : Sound program workers calls crew) (hadvance : Advance program crew next) :
    Blamed workers calls next := by
  have hkept : ∀ (place : Nat) (outcome : ChunkEnd), crew.workers[place]? = some (.left outcome) →
      next.workers[place]? = some (.left outcome) := fun _ _ => hadvance.left_kept
  cases hadvance with
  | raise => exact ⟨hblamed.published, hblamed.abandoned⟩
  | turn place worker worker' shared' log' hworker hturn =>
      have hplace := (List.getElem?_eq_some_iff.mp hworker).1
      constructor
      · intro seen hseen
        rcases hturn.mem_published hseen with hold | ⟨_, _, _, _, error, rfl, rfl⟩
        · obtain ⟨blamed, error, hstart, hfailed⟩ := hblamed.published seen hold
          exact ⟨blamed, error, hstart, hkept _ _ hfailed⟩
        · exact ⟨place, error, (hsound.index_bounds hworker).1, List.getElem?_set_self hplace⟩
      · intro other habandoned
        -- Either this very turn gives the chunk up, or it was given up before.
        have hearlier : ∃ earlier error, earlier < other ∧
            crew.workers[earlier]? = some (.left (.failed error)) := by
          by_cases hsame : place = other
          · subst hsame
            rw [List.getElem?_set_self hplace, Option.some.injEq] at habandoned
            subst habandoned
            obtain ⟨_, _, _, _, _, rfl, seen, hseen, hlt⟩ := hturn.of_abandoned
            exact hblamed.exists_earlier hsound hworker hseen hlt
          · rw [List.getElem?_set_ne hsame] at habandoned
            exact hblamed.abandoned other habandoned
        obtain ⟨earlier, error, hlt, hfailed⟩ := hearlier
        exact ⟨earlier, error, hlt, hkept _ _ hfailed⟩

theorem blamed_of_run (hrun : Run program (Crew.start workers calls) crew) :
    Blamed workers calls crew := by
  induction hrun with
  | refl => exact ⟨by simp [Crew.start], by simp [Crew.start]⟩
  | tail hrun hadvance ih => exact ih.advance (sound_of_run hrun) hadvance

/-- When all workers have left, nothing more happens, except that the flag may go up. -/
theorem Advance.not_finished (hadvance : Advance program crew next)
    (hkept : next.shared.cancelled = crew.shared.cancelled) (outcomes : List ChunkEnd) :
    ¬ crew.Finished outcomes := by
  intro hfinished
  cases hadvance with
  | raise hlowered =>
      rw [hlowered] at hkept
      cases hkept
  | turn place worker worker' shared' log' hworker hturn =>
      rw [hfinished, List.getElem?_map, Option.map_eq_some_iff] at hworker
      obtain ⟨outcome, _, rfl⟩ := hworker
      cases hturn

theorem Blamed.of_finished (hblamed : Blamed workers calls crew) {outcomes : List ChunkEnd}
    (hfinished : crew.Finished outcomes) {place : Nat}
    (habandoned : outcomes[place]? = some .abandoned) :
    ∃ earlier error, earlier < place ∧ outcomes[earlier]? = some (.failed error) := by
  obtain ⟨earlier, error, hlt, hfailed⟩ := hblamed.abandoned place (by
    rw [hfinished, List.getElem?_map, habandoned]
    rfl)
  rw [hfinished, List.getElem?_map, Option.map_eq_some_iff] at hfailed
  obtain ⟨outcome, hget, houtcome⟩ := hfailed
  obtain rfl := Worker.left.inj houtcome
  exact ⟨earlier, error, hlt, hget⟩

end Blame
end Workers

end CallResolution
