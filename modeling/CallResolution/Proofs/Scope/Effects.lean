import Mathlib.Data.List.Forall2
import Mathlib.Tactic
import CallResolution.Scope.Command

/-!
# What a building step answers and leaves

One equation for each building step: its answer and the graph after it, as a function of
the graph before it.  `declareAll` and `enterPath`, which are sequences of steps, have no
such equation here.

A new class is half in the graph when its type is inserted: the equation of `newClass`
ends in that insertion, and what comes out of it is NOT said here.  A signature is stored
in scopes that are checked before, so the checks on the way do not fail.

The graphs that steps leave have names of their own: `withChild`, `withClassScope`,
`withClass` and `withSignature`.
-/

namespace CallResolution

namespace ScopeGraph

/-- The graph with one more scope, contained in `parent`. -/
def withChild (graph : ScopeGraph) (parent : ScopeId) (name : String) (kind : ScopeKind) :
    ScopeGraph :=
  (graph.addScope (Scope.ofKind kind)).addEdge ⟨parent, ⟨graph.size⟩, .contains name⟩

/-- The graph in which `scope` pulls the functions of one name in from `source`. -/
def withPullIn (graph : ScopeGraph) (scope : ScopeId) (name : String) (source : ScopeId) :
    ScopeGraph :=
  if graph.edges.contains ⟨scope, source, .pullsIn name⟩ then graph
  else graph.addEdge ⟨scope, source, .pullsIn name⟩

/-- The fingerprint of a type of this name in a scope. -/
def typeIn (graph : ScopeGraph) (scope : ScopeId) (name : String) : Fingerprint :=
  Fingerprint.ofName (graph.qualify scope name)

/-- The record of a type of this name in a scope. -/
def recordIn (graph : ScopeGraph) (scope : ScopeId) (name : String) (body : Option ScopeId)
    (bases : List Fingerprint) : TypeRecord where
  type := graph.typeIn scope name
  name := name
  qualified := graph.qualify scope name
  home := some (graph.innermostSpace scope)
  body := body
  bases := bases

/-- The graph with the scope of a new class, whose type is not registered yet.  `bodies`
are the scopes of its bases. -/
def withClassScope (graph : ScopeGraph) (scope : ScopeId) (name : String)
    (bodies : List ScopeId) : ScopeGraph :=
  bodies.foldl (fun grown body => grown.addEdge ⟨⟨graph.size⟩, body, .inherits⟩)
    (graph.withChild scope name (.classBody (graph.typeIn scope name)))

/-- The graph with one more class.  `bodies` are the scopes of its bases. -/
def withClass (graph : ScopeGraph) (scope : ScopeId) (name : String)
    (bases : List Fingerprint) (bodies : List ScopeId) : ScopeGraph :=
  (bodies.foldl (fun grown body => grown.addEdge ⟨⟨graph.size⟩, body, .inherits⟩)
    (graph.withChild scope name (.classBody (graph.typeIn scope name)))).addType
      (graph.recordIn scope name (some ⟨graph.size⟩) bases)

/-- The graph in which a scope has one more associated signature. -/
def associate (graph : ScopeGraph) (signature : Signature) : Option ScopeId → ScopeGraph
  | none => graph
  | some space => graph.modifyScope space fun contents =>
      { contents with associated := contents.associated ++ [signature] }

/-- The graph in which a signature is declared in its own scope. -/
def declareIn (graph : ScopeGraph) (signature : Signature) : ScopeGraph :=
  graph.modifyScope signature.origin fun contents =>
    { contents with declared := contents.declared ++ [signature] }

/-- The place that a signature will have in the index: behind what its scope declares under
its name. -/
def entryOf (graph : ScopeGraph) (signature : Signature) : IndexEntry where
  fingerprint := signature.fingerprint
  scope := signature.origin
  name := signature.name
  place := (graph.declaredAs signature.origin signature.name).length

@[simp]
theorem fingerprint_entryOf (graph : ScopeGraph) (signature : Signature) :
    (graph.entryOf signature).fingerprint = signature.fingerprint := rfl

/-- The graph with one more stored signature. -/
def withSignature (graph : ScopeGraph) (signature : Signature) (space : Option ScopeId) :
    ScopeGraph :=
  ((graph.associate signature space).declareIn signature).addIndexEntry
    (graph.entryOf signature)

/-! ## What the new graphs consist of -/

section Fields

variable (graph : ScopeGraph) (scope : ScopeId) (name : String)

@[simp]
theorem scopes_withChild (kind : ScopeKind) :
    (graph.withChild scope name kind).scopes = graph.scopes ++ [Scope.ofKind kind] := rfl

@[simp]
theorem edges_withChild (kind : ScopeKind) :
    (graph.withChild scope name kind).edges =
      ⟨scope, ⟨graph.size⟩, .contains name⟩ :: graph.edges := rfl

@[simp]
theorem types_withChild (kind : ScopeKind) :
    (graph.withChild scope name kind).types = graph.types := rfl

@[simp]
theorem index_withChild (kind : ScopeKind) :
    (graph.withChild scope name kind).index = graph.index := rfl

/-- Edges added one after the other end up newest first; nothing else changes. -/
theorem foldl_addEdge (edgeTo : ScopeId → Edge) (targets : List ScopeId) :
    targets.foldl (fun grown target => grown.addEdge (edgeTo target)) graph =
      { graph with edges := (targets.map edgeTo).reverse ++ graph.edges } := by
  induction targets generalizing graph with
  | nil => rfl
  | cons target rest ih =>
      rw [List.foldl_cons, ih]
      simp [addEdge]

variable (bases : List Fingerprint) (bodies : List ScopeId)

theorem scopes_withClassScope :
    (graph.withClassScope scope name bodies).scopes =
      graph.scopes ++ [Scope.ofKind (.classBody (graph.typeIn scope name))] := by
  rw [withClassScope, foldl_addEdge]
  rfl

theorem edges_withClassScope :
    (graph.withClassScope scope name bodies).edges =
      (bodies.map fun body => (⟨⟨graph.size⟩, body, .inherits⟩ : Edge)).reverse ++
        ⟨scope, ⟨graph.size⟩, .contains name⟩ :: graph.edges := by
  rw [withClassScope, foldl_addEdge]
  rfl

theorem types_withClassScope :
    (graph.withClassScope scope name bodies).types = graph.types := by
  rw [withClassScope, foldl_addEdge]
  rfl

theorem index_withClassScope :
    (graph.withClassScope scope name bodies).index = graph.index := by
  rw [withClassScope, foldl_addEdge]
  rfl

/-- The type comes last. -/
theorem withClass_eq_addType :
    graph.withClass scope name bases bodies =
      (graph.withClassScope scope name bodies).addType
        (graph.recordIn scope name (some ⟨graph.size⟩) bases) := rfl

@[simp]
theorem scopes_withClass :
    (graph.withClass scope name bases bodies).scopes =
      graph.scopes ++ [Scope.ofKind (.classBody (graph.typeIn scope name))] :=
  scopes_withClassScope graph scope name bodies

@[simp]
theorem edges_withClass :
    (graph.withClass scope name bases bodies).edges =
      (bodies.map fun body => (⟨⟨graph.size⟩, body, .inherits⟩ : Edge)).reverse ++
        ⟨scope, ⟨graph.size⟩, .contains name⟩ :: graph.edges :=
  edges_withClassScope graph scope name bodies

@[simp]
theorem types_withClass :
    (graph.withClass scope name bases bodies).types =
      graph.types ++ [graph.recordIn scope name (some ⟨graph.size⟩) bases] := by
  rw [withClass_eq_addType, addType, types_withClassScope]

@[simp]
theorem index_withClass :
    (graph.withClass scope name bases bodies).index = graph.index :=
  index_withClassScope graph scope name bodies

variable (signature : Signature) (space : Option ScopeId)

/-- The scopes stay the same while a copy is made. -/
theorem holds_associate (other : ScopeId) :
    (graph.associate signature space).holds other = graph.holds other := by
  cases space with
  | none => rfl
  | some space => simp [associate, modifyScope, holds]

@[simp]
theorem edges_withSignature : (graph.withSignature signature space).edges = graph.edges := by
  cases space <;> rfl

@[simp]
theorem types_withSignature : (graph.withSignature signature space).types = graph.types := by
  cases space <;> rfl

@[simp]
theorem index_withSignature :
    (graph.withSignature signature space).index = graph.index ++ [graph.entryOf signature] := by
  cases space <;> rfl

end Fields

/-- The scope of a class type, or why there is none. -/
def classScope (graph : ScopeGraph) (type : Fingerprint) : Except RegistrationError ScopeId :=
  match graph.body? type with
  | some scope => .ok scope
  | none => .error (.unknownType (graph.typeText type))

theorem classScope_eq_ok_iff (graph : ScopeGraph) (type : Fingerprint) (scope : ScopeId) :
    graph.classScope type = .ok scope ↔ graph.body? type = some scope := by
  unfold classScope
  cases graph.body? type with
  | some body => simp
  | none => simp

/-- A member belongs into the scope of its class. -/
def FitsMember (graph : ScopeGraph) (signature : Signature) : Prop :=
  ∀ receiver ∈ signature.receiver,
    graph.kind? signature.origin = some (.classBody receiver.type)

instance (graph : ScopeGraph) (signature : Signature) :
    Decidable (graph.FitsMember signature) :=
  inferInstanceAs (Decidable (∀ receiver ∈ signature.receiver, _))

end ScopeGraph

namespace Declaration

/-- The scope that gets a copy; the signature's own scope never does. -/
def elsewhere (declaration : Declaration) : Option ScopeId :=
  declaration.associated.filter (· ≠ declaration.signature.origin)

/-- Why a graph refuses a declaration, if it does. -/
def refusal (declaration : Declaration) (graph : ScopeGraph) : Option RegistrationError :=
  if graph.holds declaration.signature.origin = false then
    some (.unknownScope declaration.signature.origin)
  else if graph.FitsMember declaration.signature then
    if graph.isIndexed declaration.signature.fingerprint then
      some (.duplicateSignature (graph.signatureText declaration.signature))
    else (declaration.elsewhere.filter (!graph.holds ·)).map .unknownScope
  else some (.notAClassScope declaration.signature.origin)

end Declaration

namespace Registration

variable {α β : Type}

/-! ## Sequencing -/

theorem perform_pure (a : α) (graph : ScopeGraph) :
    (pure a : Registration α).perform graph = (.ok a, graph) := rfl

theorem perform_get (graph : ScopeGraph) :
    (get : Registration ScopeGraph).perform graph = (.ok graph, graph) := rfl

theorem perform_modify (change : ScopeGraph → ScopeGraph) (graph : ScopeGraph) :
    (modify change : Registration PUnit).perform graph = (.ok ⟨⟩, change graph) := rfl

theorem perform_bind (first : Registration α) (next : α → Registration β)
    (graph : ScopeGraph) :
    (first >>= next).perform graph =
      match first.perform graph with
      | (.ok a, grown) => (next a).perform grown
      | (.error error, grown) => (.error error, grown) := by
  simp only [perform, ExceptT.run_bind, StateT.run_bind]
  cases hfirst : (ExceptT.run first).run graph with
  | mk answer grown =>
      cases answer with
      | ok a => rfl
      | error error => rfl

theorem perform_bind_of_ok {first : Registration α} {a : α} {graph grown : ScopeGraph}
    (hfirst : first.perform graph = (.ok a, grown)) (next : α → Registration β) :
    (first >>= next).perform graph = (next a).perform grown := by
  rw [perform_bind, hfirst]

/-- Renaming the answer does not touch the graph. -/
theorem perform_map (rename : α → β) (step : Registration α) (graph : ScopeGraph) :
    (rename <$> step).perform graph =
      ((step.perform graph).1.map rename, (step.perform graph).2) := by
  rw [← bind_pure_comp, perform_bind]
  cases hstep : step.perform graph with
  | mk answer grown =>
      cases answer with
      | ok a => rfl
      | error error => rfl

/-! ## Scopes -/

theorem perform_requireScope (scope : ScopeId) (graph : ScopeGraph) :
    (requireScope scope).perform graph =
      if graph.holds scope then (.ok (), graph) else (.error (.unknownScope scope), graph) := by
  rw [requireScope, perform_bind_of_ok (perform_get graph)]
  cases graph.holds scope with
  | true => rfl
  | false => rfl

theorem perform_addChild (parent : ScopeId) (name : String) (kind : ScopeKind)
    (graph : ScopeGraph) :
    (addChild parent name kind).perform graph =
      (.ok ⟨graph.size⟩, graph.withChild parent name kind) := rfl

theorem perform_childOrNew (parent : ScopeId) (name : String) (graph : ScopeGraph) :
    (childOrNew parent name).perform graph =
      match graph.child? parent name with
      | some child => (.ok child, graph)
      | none => (.ok ⟨graph.size⟩, graph.withChild parent name .space) := by
  rw [childOrNew, perform_bind_of_ok (perform_get graph)]
  cases graph.child? parent name with
  | some child => rfl
  | none => rfl

theorem perform_enterSpace (parent : ScopeId) (name : String) (graph : ScopeGraph) :
    (enterSpace parent name).perform graph =
      if graph.holds parent then (childOrNew parent name).perform graph
      else (.error (.unknownScope parent), graph) := by
  rw [enterSpace, perform_bind, perform_requireScope]
  cases graph.holds parent with
  | true => rfl
  | false => rfl

theorem perform_newBlock (parent : ScopeId) (graph : ScopeGraph) :
    (newBlock parent).perform graph =
      if graph.holds parent then (.ok ⟨graph.size⟩, graph.withChild parent "" .block)
      else (.error (.unknownScope parent), graph) := by
  rw [newBlock, perform_bind, perform_requireScope]
  cases graph.holds parent with
  | true => rfl
  | false => rfl

theorem perform_pullIn (scope : ScopeId) (name : String) (source : ScopeId)
    (graph : ScopeGraph) :
    (pullIn scope name source).perform graph =
      if graph.holds scope = false then (.error (.unknownScope scope), graph)
      else if graph.holds source = false then (.error (.unknownScope source), graph)
      else (.ok (), graph.withPullIn scope name source) := by
  rw [pullIn, perform_bind, perform_requireScope]
  cases graph.holds scope with
  | false => rfl
  | true =>
      simp only [if_true, perform_bind, perform_requireScope]
      cases graph.holds source with
      | false => rfl
      | true =>
          simp only [if_true, perform_get, ScopeGraph.withPullIn]
          cases graph.edges.contains ⟨scope, source, .pullsIn name⟩ with
          | true => rfl
          | false => rfl

/-! ## Types -/

theorem perform_requireFreshType (scope : ScopeId) (name : String) (graph : ScopeGraph) :
    (requireFreshType (graph.qualify scope name)).perform graph =
      if (graph.registered? (graph.typeIn scope name)).isSome then
        (.error (.duplicateType (graph.qualify scope name)), graph)
      else (.ok (), graph) := by
  rw [requireFreshType, perform_bind_of_ok (perform_get graph), ScopeGraph.typeIn]
  cases (graph.registered? (Fingerprint.ofName (graph.qualify scope name))).isSome with
  | true => rfl
  | false => rfl

theorem perform_insertType (scope : ScopeId) (name : String) (body : Option ScopeId)
    (bases : List Fingerprint) (graph : ScopeGraph) :
    (insertType scope name body bases).perform graph =
      if (graph.registered? (graph.typeIn scope name)).isSome then
        (.error (.duplicateType (graph.qualify scope name)), graph)
      else (.ok (graph.typeIn scope name),
        graph.addType (graph.recordIn scope name body bases)) := by
  simp only [insertType, perform_bind, perform_get, perform_requireFreshType]
  by_cases hknown : (graph.registered? (graph.typeIn scope name)).isSome = true
  · rw [if_pos hknown, if_pos hknown]
  · rw [if_neg hknown, if_neg hknown]
    rfl

theorem perform_newType (scope : ScopeId) (name : String) (graph : ScopeGraph) :
    (newType scope name).perform graph =
      if graph.holds scope = false then (.error (.unknownScope scope), graph)
      else if (graph.registered? (graph.typeIn scope name)).isSome then
        (.error (.duplicateType (graph.qualify scope name)), graph)
      else (.ok (graph.typeIn scope name),
        graph.addType (graph.recordIn scope name none [])) := by
  rw [newType, perform_bind, perform_requireScope]
  cases graph.holds scope with
  | false => rfl
  | true => exact perform_insertType scope name none [] graph

theorem perform_requireClass (type : Fingerprint) (graph : ScopeGraph) :
    (requireClass type).perform graph = (graph.classScope type, graph) := by
  rw [requireClass, perform_bind_of_ok (perform_get graph), ScopeGraph.classScope]
  cases graph.body? type with
  | some scope => rfl
  | none => rfl

/-- Steps that only read the graph are run in sequence without changing it. -/
theorem perform_mapM_of_reads {step : α → Registration β} {graph : ScopeGraph}
    {answer : α → Except RegistrationError β}
    (hreads : ∀ a, (step a).perform graph = (answer a, graph)) (arguments : List α) :
    (arguments.mapM step).perform graph = (arguments.mapM answer, graph) := by
  induction arguments with
  | nil => rfl
  | cons a rest ih =>
      rw [List.mapM_cons, List.mapM_cons, perform_bind, hreads]
      cases answer a with
      | error error => rfl
      | ok b =>
          simp only [perform_bind, ih]
          cases rest.mapM answer with
          | error error => rfl
          | ok bs => rfl

theorem perform_addEdges (edgeTo : ScopeId → Edge) (targets : List ScopeId)
    (graph : ScopeGraph) :
    (forIn targets PUnit.unit fun target _ => do
      modify (·.addEdge (edgeTo target))
      pure (ForInStep.yield PUnit.unit) : Registration PUnit).perform graph =
      (.ok ⟨⟩, targets.foldl (fun grown target => grown.addEdge (edgeTo target)) graph) := by
  induction targets generalizing graph with
  | nil => rfl
  | cons target rest ih =>
      simp only [List.forIn_cons, List.foldl_cons, perform_bind, perform_modify, perform_pure]
      exact ih _

/-- A class whose scope, bases and name are fine gets its scope; its type is inserted into
the graph that has this scope already. -/
theorem perform_newClass (scope : ScopeId) (name : String) (bases : List Fingerprint)
    (graph : ScopeGraph) :
    (newClass scope name bases).perform graph =
      if graph.holds scope = false then (.error (.unknownScope scope), graph)
      else match bases.mapM graph.classScope with
        | .error error => (.error error, graph)
        | .ok bodies =>
            if (graph.registered? (graph.typeIn scope name)).isSome then
              (.error (.duplicateType (graph.qualify scope name)), graph)
            else (insertType scope name (some ⟨graph.size⟩) bases).perform
              (graph.withClassScope scope name bodies) := by
  rw [newClass, perform_bind, perform_requireScope]
  cases graph.holds scope with
  | false => rfl
  | true =>
      simp only [if_true, perform_bind]
      rw [perform_mapM_of_reads fun base => perform_requireClass base graph]
      cases bases.mapM graph.classScope with
      | error error => rfl
      | ok bodies =>
          simp only [perform_get, perform_requireFreshType, perform_addChild,
            Bool.true_eq_false, if_false]
          by_cases hknown : (graph.registered? (graph.typeIn scope name)).isSome = true
          · rw [if_pos hknown, if_pos hknown]
          · rw [if_neg hknown, if_neg hknown]
            simp only [perform_addEdges fun body => ⟨⟨graph.size⟩, body, .inherits⟩]
            rfl

/-! ## Declarations -/

theorem perform_requireMemberScope (signature : Signature) (graph : ScopeGraph) :
    (requireMemberScope signature).perform graph =
      if graph.FitsMember signature then (.ok (), graph)
      else (.error (.notAClassScope signature.origin), graph) := by
  unfold requireMemberScope
  cases hreceiver : signature.receiver with
  | none =>
      have hfits : graph.FitsMember signature := by simp [ScopeGraph.FitsMember, hreceiver]
      rw [if_pos hfits]
      rfl
  | some receiver =>
      have hfits : graph.FitsMember signature ↔
          graph.kind? signature.origin = some (.classBody receiver.type) := by
        simp [ScopeGraph.FitsMember, hreceiver]
      simp only [perform_bind, perform_get, hfits]
      by_cases hkind : graph.kind? signature.origin = some (.classBody receiver.type)
      · rw [if_pos hkind, if_pos hkind]
        rfl
      · rw [if_neg hkind, if_neg hkind]
        rfl

theorem perform_requireFreshSignature (signature : Signature) (graph : ScopeGraph) :
    (requireFreshSignature signature).perform graph =
      if graph.isIndexed signature.fingerprint then
        (.error (.duplicateSignature (graph.signatureText signature)), graph)
      else (.ok (), graph) := by
  rw [requireFreshSignature, perform_bind_of_ok (perform_get graph)]
  cases graph.isIndexed signature.fingerprint with
  | true => rfl
  | false => rfl

theorem perform_changeScope (scope : ScopeId) (change : Scope → Scope) (graph : ScopeGraph) :
    (changeScope scope change).perform graph =
      if graph.holds scope then (.ok (), graph.modifyScope scope change)
      else (.error (.unknownScope scope), graph) := by
  rw [changeScope, perform_bind, perform_requireScope]
  cases graph.holds scope with
  | true => rfl
  | false => rfl

/-- A scope that was there before the copy was made is there when the signature itself is
put in. -/
theorem perform_store (signature : Signature) {space : Option ScopeId} {graph : ScopeGraph}
    (horigin : graph.holds signature.origin = true)
    (hspace : ∀ other ∈ space, graph.holds other = true) :
    (store signature space).perform graph =
      (.ok (), graph.withSignature signature space) := by
  have hheld := (ScopeGraph.holds_associate graph signature space signature.origin).trans horigin
  rw [store, perform_bind_of_ok (perform_get graph)]
  cases space with
  | none =>
      simp only [perform_bind, perform_changeScope, horigin, if_true, perform_modify]
      rfl
  | some space =>
      rw [ScopeGraph.associate] at hheld
      simp only [perform_bind, perform_changeScope, hspace space rfl, hheld, if_true,
        perform_modify]
      rfl

/-- The last part of a declaration: the other scope has to exist, then all is stored. -/
theorem perform_storeElsewhere (signature : Signature) (space : Option ScopeId)
    {graph : ScopeGraph} (horigin : graph.holds signature.origin = true) :
    (do
      if let some space := space then
        requireScope space
      store signature space
      return signature.fingerprint : Registration Fingerprint).perform graph =
      match (space.filter (!graph.holds ·)).map RegistrationError.unknownScope with
      | some error => (.error error, graph)
      | none => (.ok signature.fingerprint, graph.withSignature signature space) := by
  cases space with
  | none =>
      simp only [perform_bind, perform_pure]
      rw [perform_store signature horigin (by simp)]
      rfl
  | some space =>
      simp only [perform_bind, perform_requireScope, Option.filter_some]
      cases hheld : graph.holds space with
      | true =>
          simp only [if_true]
          rw [perform_store signature horigin (by simpa using hheld)]
          rfl
      | false => rfl

theorem perform_declareAsIs (declaration : Declaration) (graph : ScopeGraph) :
    (declareAsIs declaration).perform graph =
      match declaration.refusal graph with
      | some error => (.error error, graph)
      | none => (.ok declaration.signature.fingerprint,
          graph.withSignature declaration.signature declaration.elsewhere) := by
  have helsewhere : declaration.associated.filter (· ≠ declaration.signature.origin) =
      declaration.elsewhere := rfl
  simp only [declareAsIs, helsewhere, perform_bind, perform_requireScope, Declaration.refusal]
  cases horigin : graph.holds declaration.signature.origin with
  | false => rfl
  | true =>
      simp only [if_true, Bool.true_eq_false, if_false, perform_requireMemberScope]
      by_cases hmember : graph.FitsMember declaration.signature
      · simp only [if_pos hmember, perform_requireFreshSignature]
        cases graph.isIndexed declaration.signature.fingerprint with
        | true => rfl
        | false => exact perform_storeElsewhere declaration.signature declaration.elsewhere horigin
      · simp only [if_neg hmember]

theorem perform_declare (declaration : Declaration) (graph : ScopeGraph) :
    (declare declaration).perform graph =
      match declaration.signature.check with
      | .error defect => (.error (.malformed defect), graph)
      | .ok () => (declareAsIs declaration).perform graph := by
  unfold declare
  cases declaration.signature.check with
  | error defect => rfl
  | ok accepted => rfl

end Registration
end CallResolution
