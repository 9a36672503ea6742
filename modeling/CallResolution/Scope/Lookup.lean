import CallResolution.Scope.Query

/-!
# Name look-up

What a scope offers under a name: its own declarations and what it pulls in, or,
if that is nothing at all, what the bases of a class offer.

The walk remembers the scopes it has seen.  A scope seen before offers nothing of
its own, so pull-ins that run in a circle come to an end; its bases are asked
again all the same.  The walk also carries a bound on its depth.  Each step either
marks a scope that was not marked or goes to a class registered earlier, so
`walkBound` is never used up in a graph built by registration.

Signatures are told apart by fingerprint when sets are merged.
-/

namespace CallResolution

/-- Add a signature unless one of the same fingerprint is there. -/
def pushUnique (set : List Signature) (signature : Signature) : List Signature :=
  if set.any (·.fingerprint == signature.fingerprint) then set else set ++ [signature]

/-- Add signatures one after the other. -/
def mergeUnique (set more : List Signature) : List Signature :=
  more.foldl pushUnique set

/-- The state of a walk: what was found, and the scopes already seen. -/
structure Walk where
  found : List Signature
  seen : List ScopeId
  deriving DecidableEq, Repr

namespace ScopeGraph

/-- Visit scopes one after the other and merge what they offer. -/
def visitEach (visit : ScopeId → List ScopeId → Walk) (targets : List ScopeId) (walk : Walk) :
    Walk :=
  targets.foldl
    (fun walk target =>
      let inner := visit target walk.seen
      ⟨mergeUnique walk.found inner.found, inner.seen⟩)
    walk

/-- What a scope declares and pulls in, without its bases; nothing at a second visit. -/
def visitOwn (graph : ScopeGraph) (name : String) (visit : ScopeId → List ScopeId → Walk)
    (scope : ScopeId) (seen : List ScopeId) : Walk :=
  if scope ∈ seen then
    ⟨[], seen⟩
  else
    visitEach visit (graph.pulledFrom scope name)
      ⟨graph.declaredAs scope name, scope :: seen⟩

/-- What a scope offers: its own, or else what its bases offer. -/
def visit (graph : ScopeGraph) (name : String) : Nat → ScopeId → List ScopeId → Walk
  | 0, _, seen => ⟨[], seen⟩
  | depth + 1, scope, seen =>
      let own := graph.visitOwn name (graph.visit name depth) scope seen
      if own.found.isEmpty then
        visitEach (graph.visit name depth) (graph.directBases scope) ⟨[], own.seen⟩
      else
        own

/-- A depth that no walk over the scopes of this graph exceeds. -/
def walkBound (graph : ScopeGraph) : Nat :=
  (graph.size + 1) * (graph.size + 1)

/-- What a scope offers under a name, bases included. -/
def offered (graph : ScopeGraph) (name : String) (scope : ScopeId) : List Signature :=
  (graph.visit name graph.walkBound scope []).found

/-- What a scope offers under a name, bases left out. -/
def offeredAlone (graph : ScopeGraph) (name : String) (scope : ScopeId) : List Signature :=
  (graph.visitOwn name (graph.visit name graph.walkBound) scope []).found

/-- The first scope outwards from `start` whose set, as `offer` gives it, is not empty. -/
def firstOffer (graph : ScopeGraph) (offer : ScopeId → List Signature) (start : ScopeId) :
    Option (ScopeId × List Signature) :=
  (graph.enclosing start).findSome? fun scope =>
    match offer scope with
    | [] => none
    | signature :: rest => some (scope, signature :: rest)

/-- The innermost scope that offers the name, with its overload set. -/
def lookup (graph : ScopeGraph) (name : String) (start : ScopeId) :
    Option (ScopeId × List Signature) :=
  graph.firstOffer (graph.offered name) start

/-- The same for what a scope offers besides members.  Members do not count, but what they
hide in the bases of a class stays hidden. -/
def lookupFree (graph : ScopeGraph) (name : String) (start : ScopeId) :
    Option (ScopeId × List Signature) :=
  graph.firstOffer (fun scope => (graph.offered name scope).filter (!·.isMember)) start

/-- What a class offers under a name. -/
def lookupInClass (graph : ScopeGraph) (type : Fingerprint) (name : String) : List Signature :=
  match graph.body? type with
  | some scope => graph.offered name scope
  | none => []

/-- What argument-dependent look-up finds in a namespace. -/
def lookupInSpace (graph : ScopeGraph) (space : ScopeId) (name : String) : List Signature :=
  mergeUnique (graph.offeredAlone name space) (graph.associations space name)

end ScopeGraph
end CallResolution
