import CallResolution.Scope.Basic
import CallResolution.Scope.Closure

/-!
# Reading a scope graph

Questions about scopes, types and declarations.  Every question has an answer for
every scope number: a scope that the graph does not hold has no kind, no outer
scope, no name and no declarations.

The chain `enclosing` climbs from a scope to the root.  It takes as many steps as
the number of the scope allows, which is enough whenever a scope is younger than
the one that contains it.
-/

namespace CallResolution
namespace ScopeGraph

/-! ## Scopes -/

def root (_graph : ScopeGraph) : ScopeId :=
  ScopeId.root

def size (graph : ScopeGraph) : Nat :=
  graph.scopes.length

def contents? (graph : ScopeGraph) (scope : ScopeId) : Option Scope :=
  graph.scopes[scope.index]?

def holds (graph : ScopeGraph) (scope : ScopeId) : Bool :=
  scope.index < graph.scopes.length

def kind? (graph : ScopeGraph) (scope : ScopeId) : Option ScopeKind :=
  (graph.contents? scope).map (·.kind)

/-- The newest child of this name.  A child without a name is never found. -/
def child? (graph : ScopeGraph) (parent : ScopeId) (name : String) : Option ScopeId :=
  graph.edges.findSome? fun edge =>
    match edge.label with
    | .contains child =>
        if edge.source = parent ∧ child ≠ "" ∧ child = name then some edge.target else none
    | _ => none

/-- Follow a path of names from a scope. -/
def follow? (graph : ScopeGraph) (start : ScopeId) : List String → Option ScopeId
  | [] => some start
  | name :: rest => do
      let child ← graph.child? start name
      graph.follow? child rest

/-- Follow a path of names from the root. -/
def atPath? (graph : ScopeGraph) (path : List String) : Option ScopeId :=
  graph.follow? graph.root path

/-- The scope that contains this one. -/
def outer? (graph : ScopeGraph) (scope : ScopeId) : Option ScopeId :=
  graph.edges.findSome? fun edge =>
    match edge.label with
    | .contains _ => if edge.target = scope then some edge.source else none
    | _ => none

/-- The name under which a scope is contained, unless it is empty. -/
def ownName? (graph : ScopeGraph) (scope : ScopeId) : Option String :=
  graph.edges.findSome? fun edge =>
    match edge.label with
    | .contains name => if edge.target = scope ∧ name ≠ "" then some name else none
    | _ => none

/-- Climb at most `steps` times. -/
def climb (graph : ScopeGraph) : Nat → ScopeId → List ScopeId
  | 0, scope => [scope]
  | steps + 1, scope =>
      match graph.outer? scope with
      | none => [scope]
      | some outer => scope :: graph.climb steps outer

/-- The scope itself, the scope that contains it, and so on. -/
def enclosing (graph : ScopeGraph) (scope : ScopeId) : List ScopeId :=
  graph.climb scope.index scope

/-- The names on the way from the root; scopes without a name leave no trace. -/
def pathNames (graph : ScopeGraph) (scope : ScopeId) : List String :=
  ((graph.enclosing scope).filterMap graph.ownName?).reverse

/-- A simple name, qualified by the path of the scope that declares it. -/
def qualify (graph : ScopeGraph) (scope : ScopeId) (name : String) : String :=
  "::".intercalate (graph.pathNames scope ++ [name])

/-- The innermost namespace around a scope; the root if there is none. -/
def innermostSpace (graph : ScopeGraph) (scope : ScopeId) : ScopeId :=
  ((graph.enclosing scope).find? fun outer => graph.kind? outer = some .space).getD graph.root

/-! ## Types -/

def registered? (graph : ScopeGraph) (type : Fingerprint) : Option TypeRecord :=
  graph.types.find? (·.type == type)

/-- The qualified name of a registered type, and the bare fingerprint of any other. -/
def typeText (graph : ScopeGraph) (type : Fingerprint) : String :=
  match graph.registered? type with
  | some record => record.qualified
  | none => type.text

def home? (graph : ScopeGraph) (type : Fingerprint) : Option ScopeId :=
  (graph.registered? type).bind (·.home)

def body? (graph : ScopeGraph) (type : Fingerprint) : Option ScopeId :=
  (graph.registered? type).bind (·.body)

/-- The scopes of the direct bases of a class scope, in the order they were given. -/
def directBases (graph : ScopeGraph) (scope : ScopeId) : List ScopeId :=
  match graph.kind? scope with
  | some (.classBody type) =>
      match graph.registered? type with
      | some record => record.bases.filterMap graph.body?
      | none => []
  | _ => []

/-- The targets of the inheritance edges that leave a scope. -/
def inheritedScopes (graph : ScopeGraph) (scope : ScopeId) : List ScopeId :=
  graph.edges.filterMap fun edge =>
    if edge.source = scope ∧ edge.label = .inherits then some edge.target else none

/-- Whether one class is derived from another, through any number of bases. -/
def derives (graph : ScopeGraph) (derived base : Fingerprint) : Bool :=
  derived != base &&
    match graph.body? derived, graph.body? base with
    | some source, some target =>
        (Closure.reach graph.inheritedScopes graph.size [source]).contains target
    | _, _ => false

/-! ## Declarations -/

/-- The signatures of one name that a scope itself declares, in order.  That they have this name
is a matter of how `Scope.declared` is kept, not something that building has to see to. -/
def declaredAs (graph : ScopeGraph) (scope : ScopeId) (name : String) : List Signature :=
  match graph.contents? scope with
  | some contents => contents.declared.filter (·.name == name)
  | none => []

/-- The signatures of one name that argument-dependent look-up adds to a scope. -/
def associations (graph : ScopeGraph) (scope : ScopeId) (name : String) : List Signature :=
  match graph.contents? scope with
  | some contents => contents.associated.filter (·.name == name)
  | none => []

def isIndexed (graph : ScopeGraph) (fingerprint : Fingerprint) : Bool :=
  graph.index.any (·.fingerprint == fingerprint)

/-- The stored signature with this fingerprint. -/
def signature? (graph : ScopeGraph) (fingerprint : Fingerprint) : Option Signature := do
  let entry ← graph.index.find? (·.fingerprint == fingerprint)
  (graph.declaredAs entry.scope entry.name)[entry.place]?

def storedCount (graph : ScopeGraph) : Nat :=
  graph.index.length

/-- Insert a scope number into an ascending list. -/
def insertAscending (scope : ScopeId) : List ScopeId → List ScopeId
  | [] => [scope]
  | first :: rest =>
      if scope.index ≤ first.index then scope :: first :: rest
      else first :: insertAscending scope rest

/-- The scopes that functions of this name are pulled in from, in ascending order. -/
def pulledFrom (graph : ScopeGraph) (scope : ScopeId) (name : String) : List ScopeId :=
  (graph.edges.filterMap fun edge =>
    if edge.source = scope ∧ edge.label = .pullsIn name then some edge.target else none).foldr
      insertAscending []

end ScopeGraph

namespace Scope

/-- Each name of a list of signatures, with the number of signatures that have it. -/
def overloadCounts (signatures : List Signature) : List (String × Nat) :=
  (signatures.map (·.name)).eraseDups.map fun name =>
    (name, signatures.countP (·.name == name))

end Scope
end CallResolution
