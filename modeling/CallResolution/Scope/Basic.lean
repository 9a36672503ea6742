import CallResolution.Signature.Basic

/-!
# Scope graphs

A program is a graph of scopes.  A labelled edge says that one scope contains
another, that a class inherits from another, or that a scope pulls the functions
of one name in from another scope.  Edges are kept newest first, because among
children of one name the newest is the one that is found.

The graph also holds the registered types and an index from fingerprints to
stored signatures.  Every field only ever grows.
-/

namespace CallResolution

/-- What sort of scope this is. -/
inductive ScopeKind where
  | space
  | classBody (type : Fingerprint)
  | block
  deriving DecidableEq, Repr

/-- The contents of one scope. -/
structure Scope where
  kind : ScopeKind
  /-- The signatures declared here, in order of declaration.  They are kept in one list, not in
  a list for each name: what is under a name is picked out by the names that the signatures
  have, so that no signature can stand under a name other than its own. -/
  declared : List Signature
  /-- Copies of signatures declared elsewhere that argument-dependent look-up finds here. -/
  associated : List Signature
  deriving DecidableEq, Repr

namespace Scope

/-- A scope in which nothing is declared. -/
def ofKind (kind : ScopeKind) : Scope where
  kind := kind
  declared := []
  associated := []

end Scope

/-- What an edge between two scopes says. -/
inductive EdgeLabel where
  /-- The source contains the target, under a name that may be empty. -/
  | contains (name : String)
  /-- The source is a class that has the target as a direct base. -/
  | inherits
  /-- Functions of this name in the target are visible in the source. -/
  | pullsIn (name : String)
  deriving DecidableEq, Repr

/-- A labelled edge between two scopes. -/
structure Edge where
  source : ScopeId
  target : ScopeId
  label : EdgeLabel
  deriving DecidableEq, Repr

/-- A registered type. -/
structure TypeRecord where
  type : Fingerprint
  name : String
  qualified : String
  /-- The namespace that owns the type; a built-in scalar has none. -/
  home : Option ScopeId
  /-- The scope of a class; other types have none. -/
  body : Option ScopeId
  bases : List Fingerprint
  deriving DecidableEq, Repr

namespace TypeRecord

def isClass (record : TypeRecord) : Bool :=
  record.body.isSome

/-- The record of a built-in scalar. -/
def ofScalar (name : String) (type : Fingerprint) : TypeRecord where
  type := type
  name := name
  qualified := name
  home := none
  body := none
  bases := []

end TypeRecord

/-- Where a signature is stored: a scope, a name, and a place among what the scope declares
under this name. -/
structure IndexEntry where
  fingerprint : Fingerprint
  scope : ScopeId
  name : String
  place : Nat
  deriving DecidableEq, Repr

/-- Scopes, edges, registered types and the index of stored signatures. -/
structure ScopeGraph where
  scopes : List Scope
  edges : List Edge
  types : List TypeRecord
  index : List IndexEntry
  deriving DecidableEq, Repr

namespace ScopeGraph

/-- The graph of the root namespace alone. -/
def empty : ScopeGraph where
  scopes := [Scope.ofKind .space]
  edges := []
  types := []
  index := []

/-- Add a scope; its number is the number of scopes before it. -/
def addScope (graph : ScopeGraph) (scope : Scope) : ScopeGraph :=
  { graph with scopes := graph.scopes ++ [scope] }

def addEdge (graph : ScopeGraph) (edge : Edge) : ScopeGraph :=
  { graph with edges := edge :: graph.edges }

def addType (graph : ScopeGraph) (record : TypeRecord) : ScopeGraph :=
  { graph with types := graph.types ++ [record] }

def addIndexEntry (graph : ScopeGraph) (entry : IndexEntry) : ScopeGraph :=
  { graph with index := graph.index ++ [entry] }

/-- Change the contents of one scope. -/
def modifyScope (graph : ScopeGraph) (scope : ScopeId) (change : Scope → Scope) : ScopeGraph :=
  { graph with scopes := graph.scopes.modify scope.index change }

end ScopeGraph
end CallResolution
