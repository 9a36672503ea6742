/-!
# Closure under a successor function

Everything that can be reached from a list in at most a given number of steps,
each step going from an element to one of its successors.
-/

namespace CallResolution
namespace Closure

variable {α : Type} [DecidableEq α]

/-- The successors of what has been seen that have not been seen yet. -/
def fresh (next : α → List α) (seen : List α) : List α :=
  (seen.flatMap next).eraseDups.filter (fun a => !seen.contains a)

/-- Follow `next` from `seen` for at most `steps` rounds, and stop as soon as a
round finds nothing new. -/
def reach (next : α → List α) : Nat → List α → List α
  | 0, seen => seen
  | steps + 1, seen =>
      match fresh next seen with
      | [] => seen
      | a :: rest => reach next steps (seen ++ a :: rest)

end Closure
end CallResolution
