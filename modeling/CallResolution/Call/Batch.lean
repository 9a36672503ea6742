import CallResolution.Call.Resolution

/-!
# Resolving many calls

Call sites are resolved in order, one at a time, or by workers that each take a
contiguous chunk.  Workers share two things: a flag that cancels the batch, and the
least index at which some worker has met an error.  A worker looks at both before
each call site, so a run is fixed by what is seen there: `Observation` holds what
the worker saw just before one call site.  A worker that sees an error at a smaller
index gives its chunk up.

The order in which workers take turns is NOT modelled; it only decides which
observations are possible.
-/

namespace CallResolution

/-- What a worker sees just before one call site. -/
structure Observation where
  /-- The cancel flag. -/
  cancelled : Bool
  /-- The least index of an error, as far as the worker can see. -/
  failedAt : Option Nat
  deriving DecidableEq, Repr

/-- How a worker leaves its chunk. -/
inductive ChunkEnd where
  | done (resolved : List SettledCall)
  | failed (error : CallFault)
  | cancelled (completed : Nat)
  | abandoned
  deriving DecidableEq, Repr

namespace Program

/-- Resolve call sites in order, up to the first error. -/
def resolveAll (program : Program) (calls : List CallSite) :
    Except CallFault (List SettledCall) :=
  calls.mapM program.resolve

/-- Resolve each call site on its own. -/
def resolveEach (program : Program) (calls : List CallSite) :
    List (Except CallFault SettledCall) :=
  calls.map program.resolve

/-- Work through a chunk whose first call site has this index.  `resolved` holds what
the worker has done so far. -/
def workThrough (program : Program) (observe : Nat → Observation) :
    Nat → List SettledCall → List CallSite → ChunkEnd
  | _, resolved, [] => .done resolved
  | index, resolved, call :: rest =>
      if (observe index).cancelled then
        .cancelled resolved.length
      else if (observe index).failedAt.any (· < index) then
        .abandoned
      else
        match program.resolve call with
        | .ok result => program.workThrough observe (index + 1) (resolved ++ [result]) rest
        | .error error => .failed error

end Program

/-- Cut a list into chunks of at most `size` elements, each with the index of its first
element.  `pieces` bounds the number of chunks. -/
def chunksFrom {α : Type} (size : Nat) : Nat → Nat → List α → List (Nat × List α)
  | 0, _, _ => []
  | _ + 1, _, [] => []
  | pieces + 1, start, a :: rest =>
      (start, (a :: rest).take size) ::
        chunksFrom size pieces (start + size) ((a :: rest).drop size)

namespace Workers

/-- How many call sites a worker takes: at least one worker works, and never more
workers than call sites. -/
def chunkSize (workers calls : Nat) : Nat :=
  let working := max 1 (min workers calls)
  (calls + working - 1) / working

/-- Cut call sites into one chunk per worker. -/
def chunks (workers : Nat) (calls : List CallSite) : List (Nat × List CallSite) :=
  chunksFrom (chunkSize workers calls.length) calls.length 0 calls

/-- What has been gathered from the chunks so far. -/
structure Tally where
  resolved : List SettledCall
  completed : Nat
  stopped : Bool
  deriving DecidableEq, Repr

namespace Tally

def start : Tally where
  resolved := []
  completed := 0
  stopped := false

/-- Take in the outcome of the next chunk. -/
def add (tally : Tally) : ChunkEnd → Except CallFault Tally
  | .done chunk =>
      .ok { tally with
        resolved := tally.resolved ++ chunk
        completed := tally.completed + chunk.length }
  | .failed error => .error error
  | .cancelled completed =>
      .ok { tally with completed := tally.completed + completed, stopped := true }
  | .abandoned => .ok { tally with stopped := true }

/-- The result of a batch, after the last chunk. -/
def result (tally : Tally) : Except CallFault (List SettledCall) :=
  if tally.stopped then .error (.cancelled tally.completed) else .ok tally.resolved

end Tally

/-- Merge the outcomes of all chunks, in order.  An error outranks cancellation. -/
def merge (outcomes : List ChunkEnd) : Except CallFault (List SettledCall) := do
  let tally ← outcomes.foldlM Tally.add Tally.start
  tally.result

end Workers

namespace Program

/-- Resolve call sites by workers that see `observe index` before the call site of that
index. -/
def resolveByWorkers (program : Program) (observe : Nat → Observation) (workers : Nat)
    (calls : List CallSite) : Except CallFault (List SettledCall) :=
  Workers.merge <| (Workers.chunks workers calls).map fun (start, chunk) =>
    program.workThrough observe start [] chunk

end Program

namespace Observation

/-- Every worker sees the same flag throughout and no error of another worker. -/
def steady (cancelled : Bool) (_index : Nat) : Observation where
  cancelled := cancelled
  failedAt := none

end Observation
end CallResolution
