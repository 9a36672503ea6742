import CallResolution.Fingerprint.Scalar
import CallResolution.Operator
import CallResolution.Scope.Render

/-!
# Building a scope graph

Each building step reads and extends the graph and either answers or fails.  The
graph survives a failure, with all that was changed before it.  A step checks its
arguments first.  Putting in a class or a signature checks once more on the way, when
part of it is in the graph already.
-/

namespace CallResolution

/-- Why a building step fails. -/
inductive RegistrationError where
  | unknownScope (scope : ScopeId)
  | unknownType (name : String)
  | duplicateType (name : String)
  | duplicateSignature (text : String)
  | notAClassScope (scope : ScopeId)
  | malformed (defect : SignatureDefect)
  deriving DecidableEq, Repr

namespace RegistrationError

def message : RegistrationError → String
  | .unknownScope scope => "unknown scope: " ++ scope.text
  | .unknownType name => "type not found: " ++ name
  | .duplicateType name => "duplicate type: " ++ name
  | .duplicateSignature text => "duplicate declaration: " ++ text
  | .notAClassScope scope => "scope " ++ scope.text ++ " is not a class scope"
  | .malformed defect => defect.message

end RegistrationError

/-- A building step: it may fail, and the graph is kept either way. -/
abbrev Registration := ExceptT RegistrationError (StateM ScopeGraph)

/-- A signature to declare, and the namespace that also offers it to
argument-dependent look-up. -/
structure Declaration where
  signature : Signature
  associated : Option ScopeId
  deriving DecidableEq, Repr

namespace ScopeGraph

/-- The root namespace and the built-in scalars. -/
def withScalars : ScopeGraph :=
  { empty with
    types := Scalar.all.map fun scalar => TypeRecord.ofScalar scalar.name scalar.fingerprint }

end ScopeGraph

namespace Registration

/-- Run a step on a graph: its answer, and the graph it leaves. -/
def perform {α : Type} (step : Registration α) (graph : ScopeGraph) :
    Except RegistrationError α × ScopeGraph :=
  (ExceptT.run step).run graph

/-! ## Scopes -/

/-- Fail unless the graph holds the scope. -/
def requireScope (scope : ScopeId) : Registration Unit := do
  unless (← get).holds scope do
    throw (.unknownScope scope)

/-- Add a scope under a parent that is known to exist. -/
def addChild (parent : ScopeId) (name : String) (kind : ScopeKind) : Registration ScopeId := do
  let child : ScopeId := ⟨(← get).size⟩
  modify fun graph =>
    (graph.addScope (Scope.ofKind kind)).addEdge ⟨parent, child, .contains name⟩
  return child

/-- The child of this name, which becomes a new namespace if there is none. -/
def childOrNew (parent : ScopeId) (name : String) : Registration ScopeId := do
  match (← get).child? parent name with
  | some child => return child
  | none => addChild parent name .space

def enterSpace (parent : ScopeId) (name : String) : Registration ScopeId := do
  requireScope parent
  childOrNew parent name

/-- Follow a path from the root and make what is missing. -/
def enterPath (path : List String) : Registration ScopeId :=
  path.foldlM childOrNew ScopeId.root

def newBlock (parent : ScopeId) : Registration ScopeId := do
  requireScope parent
  addChild parent "" .block

/-- Make the functions of one name in `source` visible in `scope`.  Saying it twice
changes nothing. -/
def pullIn (scope : ScopeId) (name : String) (source : ScopeId) : Registration Unit := do
  requireScope scope
  requireScope source
  let edge : Edge := ⟨scope, source, .pullsIn name⟩
  unless (← get).edges.contains edge do
    modify (·.addEdge edge)

/-! ## Types -/

/-- Fail if a type of this qualified name is registered. -/
def requireFreshType (qualified : String) : Registration Unit := do
  if ((← get).registered? (Fingerprint.ofName qualified)).isSome then
    throw (.duplicateType qualified)

/-- Register a type under its qualified name, which has to be new. -/
def insertType (scope : ScopeId) (name : String) (body : Option ScopeId)
    (bases : List Fingerprint) : Registration Fingerprint := do
  let graph ← get
  let qualified := graph.qualify scope name
  requireFreshType qualified
  let type := Fingerprint.ofName qualified
  modify (·.addType
    { type := type, name := name, qualified := qualified,
      home := some (graph.innermostSpace scope), body := body, bases := bases })
  return type

def newType (scope : ScopeId) (name : String) : Registration Fingerprint := do
  requireScope scope
  insertType scope name none []

/-- The scope of a class type. -/
def requireClass (type : Fingerprint) : Registration ScopeId := do
  let graph ← get
  match graph.body? type with
  | some scope => return scope
  | none => throw (.unknownType (graph.typeText type))

/-- Register a class and make its scope.  Its bases have to be registered classes.  The
scope and its edges come first, and the type is inserted last. -/
def newClass (scope : ScopeId) (name : String) (bases : List Fingerprint) :
    Registration Fingerprint := do
  requireScope scope
  let directBases ← bases.mapM requireClass
  let qualified := (← get).qualify scope name
  requireFreshType qualified
  let child ← addChild scope name (.classBody (Fingerprint.ofName qualified))
  for base in directBases do
    modify (·.addEdge ⟨child, base, .inherits⟩)
  insertType scope name (some child) bases

/-! ## Declarations -/

/-- Fail if a member is declared outside the scope of its class. -/
def requireMemberScope (signature : Signature) : Registration Unit := do
  match signature.receiver with
  | none => return
  | some receiver =>
      unless (← get).kind? signature.origin = some (.classBody receiver.type) do
        throw (.notAClassScope signature.origin)

/-- Fail if a signature of the same fingerprint is stored. -/
def requireFreshSignature (signature : Signature) : Registration Unit := do
  let graph ← get
  if graph.isIndexed signature.fingerprint then
    throw (.duplicateSignature (graph.signatureText signature))

/-- Change the contents of a scope.  Fail if there is no such scope. -/
def changeScope (scope : ScopeId) (change : Scope → Scope) : Registration Unit := do
  requireScope scope
  modify (·.modifyScope scope change)

/-- Store a signature in its own scope, in the index, and as a copy in `associated`. -/
def store (signature : Signature) (associated : Option ScopeId) : Registration Unit := do
  let place := ((← get).declaredAs signature.origin signature.name).length
  if let some space := associated then
    changeScope space fun contents =>
      { contents with associated := contents.associated ++ [signature] }
  changeScope signature.origin fun contents =>
    { contents with declared := contents.declared ++ [signature] }
  modify (·.addIndexEntry ⟨signature.fingerprint, signature.origin, signature.name, place⟩)

/-- Declare a signature whatever its parameters look like. -/
def declareAsIs (declaration : Declaration) : Registration Fingerprint := do
  let signature := declaration.signature
  requireScope signature.origin
  requireMemberScope signature
  requireFreshSignature signature
  let elsewhere := declaration.associated.filter (· ≠ signature.origin)
  if let some space := elsewhere then
    requireScope space
  store signature elsewhere
  return signature.fingerprint

/-- Declare a signature after checking its form. -/
def declare (declaration : Declaration) : Registration Fingerprint := do
  match declaration.signature.check with
  | .error defect => throw (.malformed defect)
  | .ok () => declareAsIs declaration

/-- Declare one after the other and stop at the first failure. -/
def declareAll (declarations : List Declaration) : Registration (List Fingerprint) :=
  declarations.mapM declare

def newFunction (scope : ScopeId) (name : String) (parameters : List Parameter) :
    Registration Fingerprint :=
  declare ⟨⟨name, scope, .function, parameters, none⟩, none⟩

def newMethod (type : Fingerprint) (name : String) (isConst : Bool)
    (parameters : List Parameter) : Registration Fingerprint := do
  let scope ← requireClass type
  declare ⟨⟨name, scope, .method, parameters, some ⟨type, isConst⟩⟩, none⟩

def newOperator (scope : ScopeId) (op : Operator) (parameters : List Parameter) :
    Registration Fingerprint :=
  declare ⟨⟨op.declaredName, scope, .operator, parameters, none⟩, none⟩

def newMemberOperator (type : Fingerprint) (op : Operator) (isConst : Bool)
    (parameters : List Parameter) : Registration Fingerprint := do
  let scope ← requireClass type
  declare ⟨⟨op.declaredName, scope, .operator, parameters, some ⟨type, isConst⟩⟩, none⟩

end Registration
end CallResolution
