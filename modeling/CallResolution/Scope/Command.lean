import CallResolution.Scope.Registration

/-!
# Building commands

The building steps as data, so that a whole history of a graph is a list.
-/

namespace CallResolution

/-- A building step, written down. -/
inductive Command where
  | enterPath (path : List String)
  | enterSpace (parent : ScopeId) (name : String)
  | newBlock (parent : ScopeId)
  | pullIn (scope : ScopeId) (name : String) (source : ScopeId)
  | newType (scope : ScopeId) (name : String)
  | newClass (scope : ScopeId) (name : String) (bases : List Fingerprint)
  | declare (declaration : Declaration)
  | declareAsIs (declaration : Declaration)
  | declareAll (declarations : List Declaration)
  | newFunction (scope : ScopeId) (name : String) (parameters : List Parameter)
  | newMethod (type : Fingerprint) (name : String) (isConst : Bool)
      (parameters : List Parameter)
  | newOperator (scope : ScopeId) (op : Operator) (parameters : List Parameter)
  | newMemberOperator (type : Fingerprint) (op : Operator) (isConst : Bool)
      (parameters : List Parameter)
  deriving DecidableEq, Repr

/-- What a building step answers. -/
inductive Receipt where
  | done
  | scope (scope : ScopeId)
  | type (type : Fingerprint)
  | declared (fingerprint : Fingerprint)
  | declaredAll (fingerprints : List Fingerprint)
  deriving DecidableEq, Repr

namespace Command

/-- The building step that a command stands for. -/
def registration : Command → Registration Receipt
  | .enterPath path => Receipt.scope <$> Registration.enterPath path
  | .enterSpace parent name => Receipt.scope <$> Registration.enterSpace parent name
  | .newBlock parent => Receipt.scope <$> Registration.newBlock parent
  | .pullIn scope name source =>
      (fun () => Receipt.done) <$> Registration.pullIn scope name source
  | .newType scope name => Receipt.type <$> Registration.newType scope name
  | .newClass scope name bases =>
      Receipt.type <$> Registration.newClass scope name bases
  | .declare declaration => Receipt.declared <$> Registration.declare declaration
  | .declareAsIs declaration =>
      Receipt.declared <$> Registration.declareAsIs declaration
  | .declareAll declarations => Receipt.declaredAll <$> Registration.declareAll declarations
  | .newFunction scope name parameters =>
      Receipt.declared <$> Registration.newFunction scope name parameters
  | .newMethod type name isConst parameters =>
      Receipt.declared <$> Registration.newMethod type name isConst parameters
  | .newOperator scope op parameters =>
      Receipt.declared <$> Registration.newOperator scope op parameters
  | .newMemberOperator type op isConst parameters =>
      Receipt.declared <$> Registration.newMemberOperator type op isConst parameters

/-- Carry out a command: its answer, and the graph it leaves. -/
def run (command : Command) (graph : ScopeGraph) :
    Except RegistrationError Receipt × ScopeGraph :=
  command.registration.perform graph

/-- The graph that a history of commands leaves, failures included. -/
def runAll (commands : List Command) (graph : ScopeGraph) : ScopeGraph :=
  commands.foldl (fun graph command => (command.run graph).2) graph

end Command
end CallResolution
