import Mathlib.Logic.Function.Basic
import Mathlib.Logic.Relation
import CallResolution.Call.Batch
import CallResolution.Proofs.Traversal

/-!
# Interleaved workers

The runs that decide which observations a batch can make.  Every worker goes through
its own chunk from left to right.  At each call site it looks at the cancel flag, then
at the shared error index, then resolves the call; these are separate steps, and the
steps of different workers may come in any order.

The shared error index only ever goes down.  A look at it may be late: it finds no
index at all, or any index that has stood there so far.  The flag is read exactly and
may be raised once, at any time.

What each worker sees is written to a log.  The log is NOT shared between workers; it
only says which observations `Program.resolveByWorkers` has to be run with to give the
outcomes of the run.
-/

namespace CallResolution
namespace Workers

/-- What a worker does next at its call site. -/
inductive Moment where
  | beforeFlag
  | beforeFailure
  | beforeCall
  deriving DecidableEq, Repr

/-- A worker inside its chunk, or after it. -/
inductive Worker where
  | busy (moment : Moment) (index : Nat) (resolved : List SettledCall) (rest : List CallSite)
  | left (outcome : ChunkEnd)
  deriving DecidableEq, Repr

/-- What the workers share. -/
structure Shared where
  cancelled : Bool
  /-- Every error index that has stood in the shared cell, newest first. -/
  published : List Nat
  deriving DecidableEq, Repr

namespace Shared

/-- Lower the shared error index to `index`, unless it is that low already. -/
def publish (shared : Shared) (index : Nat) : Shared :=
  if shared.published.head?.any (· ≤ index) then shared
  else { shared with published := index :: shared.published }

theorem mem_published_publish {shared : Shared} {index value : Nat}
    (hvalue : value ∈ (shared.publish index).published) :
    value = index ∨ value ∈ shared.published := by
  unfold publish at hvalue
  split at hvalue
  · exact Or.inr hvalue
  · exact List.mem_cons.mp hvalue

@[simp]
theorem cancelled_publish (shared : Shared) (index : Nat) :
    (shared.publish index).cancelled = shared.cancelled := by
  unfold publish
  split
  · rfl
  · rfl

end Shared

/-- One step of one worker: what it was and is, and what it leaves of the shared state
and of the log. -/
inductive Turn (program : Program) (shared : Shared) (log : Nat → Observation) :
    Worker → Worker → Shared → (Nat → Observation) → Prop
  | finish (index : Nat) (resolved : List SettledCall) :
      Turn program shared log (.busy .beforeFlag index resolved [])
        (.left (.done resolved)) shared log
  | stop (index : Nat) (resolved : List SettledCall) (call : CallSite) (rest : List CallSite)
      (hraised : shared.cancelled = true) :
      Turn program shared log (.busy .beforeFlag index resolved (call :: rest))
        (.left (.cancelled resolved.length)) shared
        (Function.update log index ⟨true, none⟩)
  | proceed (index : Nat) (resolved : List SettledCall) (call : CallSite)
      (rest : List CallSite) (hlowered : shared.cancelled = false) :
      Turn program shared log (.busy .beforeFlag index resolved (call :: rest))
        (.busy .beforeFailure index resolved (call :: rest)) shared log
  | abandon (index : Nat) (resolved : List SettledCall) (call : CallSite)
      (rest : List CallSite) (seen : Nat) (hseen : seen ∈ shared.published)
      (hearlier : seen < index) :
      Turn program shared log (.busy .beforeFailure index resolved (call :: rest))
        (.left .abandoned) shared (Function.update log index ⟨false, some seen⟩)
  | clear (index : Nat) (resolved : List SettledCall) (call : CallSite)
      (rest : List CallSite) (seen : Option Nat)
      (hseen : ∀ value ∈ seen, value ∈ shared.published ∧ ¬ value < index) :
      Turn program shared log (.busy .beforeFailure index resolved (call :: rest))
        (.busy .beforeCall index resolved (call :: rest)) shared
        (Function.update log index ⟨false, seen⟩)
  | settle (index : Nat) (resolved : List SettledCall) (call : CallSite)
      (rest : List CallSite) (result : SettledCall)
      (hresolve : program.resolve call = .ok result) :
      Turn program shared log (.busy .beforeCall index resolved (call :: rest))
        (.busy .beforeFlag (index + 1) (resolved ++ [result]) rest) shared log
  | fail (index : Nat) (resolved : List SettledCall) (call : CallSite)
      (rest : List CallSite) (error : CallFault)
      (hresolve : program.resolve call = .error error) :
      Turn program shared log (.busy .beforeCall index resolved (call :: rest))
        (.left (.failed error)) (shared.publish index) log

/-- All workers, what they share, and what they have seen. -/
structure Crew where
  workers : List Worker
  shared : Shared
  log : Nat → Observation

namespace Crew

/-- Every worker at the start of its chunk, the flag down and no error published. -/
def start (workers : Nat) (calls : List CallSite) : Crew where
  workers := (chunks workers calls).map fun (first, chunk) => .busy .beforeFlag first [] chunk
  shared := ⟨false, []⟩
  log := Observation.steady false

/-- Every worker has left its chunk, with these outcomes. -/
def Finished (crew : Crew) (outcomes : List ChunkEnd) : Prop :=
  crew.workers = outcomes.map .left

end Crew

/-- One step of an interleaving: a turn of one worker, or the flag goes up. -/
inductive Advance (program : Program) : Crew → Crew → Prop
  | turn (crew : Crew) (place : Nat) (worker next : Worker) (shared : Shared)
      (log : Nat → Observation) (hworker : crew.workers[place]? = some worker)
      (hturn : Turn program crew.shared crew.log worker next shared log) :
      Advance program crew ⟨crew.workers.set place next, shared, log⟩
  | raise (crew : Crew) (hlowered : crew.shared.cancelled = false) :
      Advance program crew { crew with shared := { crew.shared with cancelled := true } }

/-- An interleaving, complete or not. -/
def Run (program : Program) : Crew → Crew → Prop :=
  Relation.ReflTransGen (Advance program)

/-! ## Every interleaving ends -/

/-- How many steps a worker can still take. -/
def Worker.stepsLeft : Worker → Nat
  | .busy .beforeFlag _ _ rest => 3 * rest.length + 1
  | .busy .beforeFailure _ _ rest => 3 * rest.length
  | .busy .beforeCall _ _ rest => 3 * rest.length - 1
  | .left _ => 0

/-- How many steps a crew can still take. -/
def Crew.stepsLeft (crew : Crew) : Nat :=
  (crew.workers.map Worker.stepsLeft).sum + if crew.shared.cancelled then 0 else 1

theorem Turn.stepsLeft_lt {program : Program} {shared shared' : Shared}
    {log log' : Nat → Observation} {worker next : Worker}
    (hturn : Turn program shared log worker next shared' log') :
    next.stepsLeft < worker.stepsLeft := by
  cases hturn with
  | finish => simp [Worker.stepsLeft]
  | stop => simp [Worker.stepsLeft]
  | proceed => simp [Worker.stepsLeft]
  | abandon => simp [Worker.stepsLeft]
  | clear =>
      simp only [Worker.stepsLeft, List.length_cons]
      omega
  | settle =>
      simp only [Worker.stepsLeft, List.length_cons]
      omega
  | fail =>
      simp only [Worker.stepsLeft, List.length_cons]
      omega

theorem Turn.cancelled_eq {program : Program} {shared shared' : Shared}
    {log log' : Nat → Observation} {worker next : Worker}
    (hturn : Turn program shared log worker next shared' log') :
    shared'.cancelled = shared.cancelled := by
  cases hturn with
  | fail index => exact shared.cancelled_publish index
  | _ => rfl

theorem Advance.stepsLeft_lt {program : Program} {crew next : Crew}
    (hadvance : Advance program crew next) : next.stepsLeft < crew.stepsLeft := by
  cases hadvance with
  | turn place worker worker' shared' log' hworker hturn =>
      have hlt := hturn.stepsLeft_lt
      obtain ⟨hplace, hget⟩ := List.getElem?_eq_some_iff.mp hworker
      have hsplit : crew.workers =
          crew.workers.take place ++ worker :: crew.workers.drop (place + 1) := by
        rw [← hget, List.cons_getElem_drop_succ, List.take_append_drop]
      have hset : crew.workers.set place worker' =
          crew.workers.take place ++ worker' :: crew.workers.drop (place + 1) :=
        List.set_eq_take_cons_drop worker' hplace
      simp only [Crew.stepsLeft, hturn.cancelled_eq, hset]
      conv => rhs; rw [hsplit]
      simp only [List.map_append, List.map_cons, List.sum_append, List.sum_cons]
      omega
  | raise hlowered => simp [Crew.stepsLeft, hlowered]

/-- No interleaving goes on for ever. -/
theorem advance_wellFounded (program : Program) :
    WellFounded fun later earlier : Crew => Advance program earlier later :=
  Subrelation.wf (fun hadvance => Advance.stepsLeft_lt hadvance) (measure Crew.stepsLeft).wf

end Workers
end CallResolution
