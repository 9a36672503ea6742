import Mathlib.Logic.Relation
import Mathlib.Tactic
import CallResolution.Proofs.Scope.Surroundings
import CallResolution.Proofs.Traversal

/-!
# How a graph grows

Every building command is a sequence of single changes.  `Extension` lists the kinds of
change with everything that was checked before each.  So a property of all graphs that
commands can build needs one argument for each kind of change and none about commands:
that is `Built.induct`, and `BuiltChecked.induct` where no command skips the check of a
signature's form.

An extension says nothing about answers: a command that fails, or that only finds what
is there, is a sequence of no changes.
-/

namespace CallResolution

attribute [ext] ScopeId

namespace ScopeGraph

/-! ## One change -/

/-- One change of a graph.  `accepts` is what the stored signatures are known to meet. -/
inductive Extension (accepts : Signature → Prop) (graph : ScopeGraph) : ScopeGraph → Prop
  | space (parent : ScopeId) (name : String) (hparent : graph.holds parent = true)
      (hnew : graph.child? parent name = none) :
      Extension accepts graph (graph.withChild parent name .space)
  | block (parent : ScopeId) (hparent : graph.holds parent = true) :
      Extension accepts graph (graph.withChild parent "" .block)
  | pull (scope : ScopeId) (name : String) (source : ScopeId)
      (hscope : graph.holds scope = true) (hsource : graph.holds source = true)
      (hnew : ⟨scope, source, .pullsIn name⟩ ∉ graph.edges) :
      Extension accepts graph (graph.addEdge ⟨scope, source, .pullsIn name⟩)
  | plainType (scope : ScopeId) (name : String) (hscope : graph.holds scope = true)
      (hfresh : graph.registered? (graph.typeIn scope name) = none) :
      Extension accepts graph (graph.addType (graph.recordIn scope name none []))
  | classType (scope : ScopeId) (name : String) (bases : List Fingerprint)
      (bodies : List ScopeId) (hscope : graph.holds scope = true)
      (hbodies : List.Forall₂ (fun base body => graph.body? base = some body) bases bodies)
      (hfresh : graph.registered? (graph.typeIn scope name) = none) :
      Extension accepts graph (graph.withClass scope name bases bodies)
  | signature (signature : Signature) (space : Option ScopeId)
      (haccepts : accepts signature) (horigin : graph.holds signature.origin = true)
      (hmember : graph.FitsMember signature)
      (hfresh : graph.isIndexed signature.fingerprint = false)
      (hspace : ∀ other ∈ space, other ≠ signature.origin ∧ graph.holds other = true) :
      Extension accepts graph (graph.withSignature signature space)

/-- Any number of changes. -/
abbrev Extensions (accepts : Signature → Prop) : ScopeGraph → ScopeGraph → Prop :=
  Relation.ReflTransGen (Extension accepts)

/-! ## What scopes keep -/

theorem holds_iff (graph : ScopeGraph) (scope : ScopeId) :
    graph.holds scope = true ↔ scope.index < graph.size := by
  simp [holds, size]

theorem contents?_modifyScope (graph : ScopeGraph) (scope : ScopeId) (change : Scope → Scope)
    (other : ScopeId) :
    (graph.modifyScope scope change).contents? other =
      if other = scope then (graph.contents? other).map change else graph.contents? other := by
  simp only [contents?, modifyScope, List.getElem?_modify, Option.map_eq_map]
  by_cases hsame : other = scope
  · simp [hsame]
  · have hindex : scope.index ≠ other.index := fun heq => hsame (ScopeId.ext heq.symm)
    simp [hsame, hindex]

theorem size_modifyScope (graph : ScopeGraph) (scope : ScopeId) (change : Scope → Scope) :
    (graph.modifyScope scope change).size = graph.size := by
  simp [modifyScope, size]

theorem kind?_modifyScope (graph : ScopeGraph) (scope : ScopeId) {change : Scope → Scope}
    (hkind : ∀ contents, (change contents).kind = contents.kind) (other : ScopeId) :
    (graph.modifyScope scope change).kind? other = graph.kind? other := by
  simp only [kind?, contents?_modifyScope]
  split
  · simp [Function.comp_def, hkind]
  · rfl

section Signature

variable (graph : ScopeGraph) (signature : Signature) (space : Option ScopeId)

@[simp]
theorem size_withSignature : (graph.withSignature signature space).size = graph.size := by
  cases space with
  | none => exact size_modifyScope ..
  | some space => exact (size_modifyScope ..).trans (size_modifyScope ..)

@[simp]
theorem kind?_associate (scope : ScopeId) :
    (graph.associate signature space).kind? scope = graph.kind? scope := by
  cases space with
  | none => rfl
  | some space =>
      apply kind?_modifyScope
      intro contents
      rfl

@[simp]
theorem kind?_withSignature (scope : ScopeId) :
    (graph.withSignature signature space).kind? scope = graph.kind? scope := by
  rw [← kind?_associate graph signature space scope]
  apply kind?_modifyScope
  intro contents
  rfl

end Signature

/-- A change never removes a scope. -/
theorem Extension.size_le {accepts : Signature → Prop} {graph grown : ScopeGraph}
    (hextension : Extension accepts graph grown) : graph.size ≤ grown.size := by
  cases hextension with
  | space | block | classType => simp [size]
  | pull | plainType => exact Nat.le_refl _
  | signature => simp

/-! ## Edges and class scopes stay inside the graph -/

/-- There is a root, and edges and types only speak of scopes that exist. -/
structure Grounded (graph : ScopeGraph) : Prop where
  size_pos : 0 < graph.size
  edge_held : ∀ edge ∈ graph.edges, graph.holds edge.source = true ∧ graph.holds edge.target = true
  body_held : ∀ record ∈ graph.types, ∀ body ∈ record.body, graph.holds body = true

theorem Grounded.holds_body {graph : ScopeGraph} (hgrounded : graph.Grounded)
    {type : Fingerprint} {body : ScopeId} (hbody : graph.body? type = some body) :
    graph.holds body = true := by
  obtain ⟨record, hrecord, hbody⟩ := Option.bind_eq_some_iff.mp hbody
  exact hgrounded.body_held record (List.mem_of_find?_eq_some hrecord) body hbody

theorem Grounded.holds_child {graph : ScopeGraph} (hgrounded : graph.Grounded)
    {parent child : ScopeId} {name : String} (hchild : graph.child? parent name = some child) :
    graph.holds child = true := by
  obtain ⟨edge, hedge, hfound⟩ := List.exists_of_findSome?_eq_some hchild
  cases hlabel : edge.label with
  | contains label =>
      simp only [hlabel, Option.ite_none_right_eq_some, Option.some.injEq] at hfound
      exact hfound.2 ▸ (hgrounded.edge_held edge hedge).2
  | inherits => simp [hlabel] at hfound
  | pullsIn label => simp [hlabel] at hfound

theorem grounded_empty : empty.Grounded where
  size_pos := by decide
  edge_held := by simp [empty]
  body_held := by simp [empty]

theorem grounded_withScalars : withScalars.Grounded where
  size_pos := by decide
  edge_held := by simp [withScalars, empty]
  body_held := by simp [withScalars, TypeRecord.ofScalar]

section Extend

variable {accepts : Signature → Prop} {graph grown : ScopeGraph}

theorem Extension.holds_of_holds (hextension : Extension accepts graph grown) {scope : ScopeId}
    (hheld : graph.holds scope = true) : grown.holds scope = true := by
  rw [holds_iff] at hheld ⊢
  exact hheld.trans_le hextension.size_le

/-- Every edge is an old one or joins scopes that the change is about. -/
theorem Grounded.edge_held_extend (hgrounded : graph.Grounded)
    (hextension : Extension accepts graph grown) :
    ∀ edge ∈ grown.edges, grown.holds edge.source = true ∧ grown.holds edge.target = true := by
  have hkeep : ∀ scope, graph.holds scope = true → grown.holds scope = true :=
    fun _ => hextension.holds_of_holds
  have hold : ∀ edge ∈ graph.edges,
      grown.holds edge.source = true ∧ grown.holds edge.target = true := fun edge hedge =>
    ⟨hkeep _ (hgrounded.edge_held edge hedge).1, hkeep _ (hgrounded.edge_held edge hedge).2⟩
  intro edge hedge
  cases hextension with
  | space parent _ hparent | block parent hparent =>
      rcases List.mem_cons.mp hedge with rfl | hedge
      · exact ⟨hkeep _ hparent, by simp [holds, size]⟩
      · exact hold edge hedge
  | pull scope name source hscope hsource =>
      rcases List.mem_cons.mp hedge with rfl | hedge
      · exact ⟨hkeep _ hscope, hkeep _ hsource⟩
      · exact hold edge hedge
  | plainType => exact hold edge hedge
  | classType scope name bases bodies hscope hbodies =>
      simp only [edges_withClass, List.mem_append, List.mem_reverse, List.mem_map,
        List.mem_cons] at hedge
      rcases hedge with ⟨body, hbody, rfl⟩ | rfl | hedge
      · obtain ⟨base, _, hbase⟩ := Traversal.exists_of_mem_right hbodies hbody
        exact ⟨by simp [holds, size], hkeep _ (hgrounded.holds_body hbase)⟩
      · exact ⟨hkeep _ hscope, by simp [holds, size]⟩
      · exact hold edge hedge
  | signature => exact hold edge (by simpa using hedge)

theorem Grounded.body_held_extend (hgrounded : graph.Grounded)
    (hextension : Extension accepts graph grown) :
    ∀ record ∈ grown.types, ∀ body ∈ record.body, grown.holds body = true := by
  have hold : ∀ record ∈ graph.types, ∀ body ∈ record.body, grown.holds body = true :=
    fun record hrecord body hbody =>
      hextension.holds_of_holds (hgrounded.body_held record hrecord body hbody)
  intro record hrecord body hbody
  cases hextension with
  | space | block | pull => exact hold record hrecord body hbody
  | plainType =>
      rcases List.mem_append.mp hrecord with hrecord | hrecord
      · exact hold record hrecord body hbody
      · rw [List.mem_singleton.mp hrecord] at hbody
        cases hbody
  | classType =>
      rw [types_withClass, List.mem_append] at hrecord
      rcases hrecord with hrecord | hrecord
      · exact hold record hrecord body hbody
      · rw [List.mem_singleton.mp hrecord] at hbody
        cases hbody
        simp [holds, size]
  | signature => exact hold record (by simpa using hrecord) body hbody

theorem Grounded.extend (hgrounded : graph.Grounded)
    (hextension : Extension accepts graph grown) : grown.Grounded where
  size_pos := hgrounded.size_pos.trans_le hextension.size_le
  edge_held := hgrounded.edge_held_extend hextension
  body_held := hgrounded.body_held_extend hextension

theorem Grounded.extends (hgrounded : graph.Grounded)
    (hextensions : Extensions accepts graph grown) : grown.Grounded := by
  induction hextensions with
  | refl => exact hgrounded
  | tail _ hextension ih => exact ih.extend hextension

end Extend

end ScopeGraph

/-! ## Steps are sequences of changes -/

namespace Declaration

theorem ne_origin_of_mem_elsewhere {declaration : Declaration} {other : ScopeId}
    (hother : other ∈ declaration.elsewhere) : other ≠ declaration.signature.origin := by
  have hfilter := (Option.filter_eq_some_iff.mp hother).2
  simpa using hfilter

/-- A graph takes a declaration whose scopes it holds, whose receiver fits and whose
fingerprint is new. -/
theorem refusal_eq_none_iff (declaration : Declaration) (graph : ScopeGraph) :
    declaration.refusal graph = none ↔
      graph.holds declaration.signature.origin = true ∧
        graph.FitsMember declaration.signature ∧
          graph.isIndexed declaration.signature.fingerprint = false ∧
            ∀ other ∈ declaration.elsewhere, graph.holds other = true := by
  have helsewhere : (declaration.elsewhere.filter (!graph.holds ·)).map
      RegistrationError.unknownScope = none ↔
        ∀ other ∈ declaration.elsewhere, graph.holds other = true := by
    simp [Option.map_eq_none_iff, Option.filter_eq_none_iff]
  unfold refusal
  cases graph.holds declaration.signature.origin with
  | false => simp
  | true =>
      by_cases hmember : graph.FitsMember declaration.signature
      · cases graph.isIndexed declaration.signature.fingerprint with
        | true => simp [hmember]
        | false => simp [hmember, helsewhere]
      · simp [hmember]

end Declaration

namespace Registration

open ScopeGraph

variable {accepts : Signature → Prop}

theorem extensions_childOrNew {graph : ScopeGraph} (hgrounded : graph.Grounded)
    {parent : ScopeId} (hparent : graph.holds parent = true) (name : String) :
    ∃ child grown, (childOrNew parent name).perform graph = (.ok child, grown) ∧
      grown.holds child = true ∧ Extensions accepts graph grown := by
  rw [perform_childOrNew]
  cases hchild : graph.child? parent name with
  | some child => exact ⟨child, graph, rfl, hgrounded.holds_child hchild, .refl⟩
  | none =>
      refine ⟨_, _, rfl, ?_, .single (.space parent name hparent hchild)⟩
      simp [holds, size]

/-- Following a path never fails, and the scopes it makes are children of scopes that
were there or were made before. -/
theorem extensions_enterPath {graph : ScopeGraph} (hgrounded : graph.Grounded)
    {start : ScopeId} (hstart : graph.holds start = true) (path : List String) :
    ∃ last grown, (path.foldlM childOrNew start).perform graph = (.ok last, grown) ∧
      grown.holds last = true ∧ Extensions accepts graph grown := by
  induction path generalizing graph start with
  | nil => exact ⟨start, graph, rfl, hstart, .refl⟩
  | cons name rest ih =>
      obtain ⟨child, middle, hperform, hchild, hfirst⟩ :=
        @extensions_childOrNew accepts graph hgrounded start hstart name
      obtain ⟨last, grown, hrest, hlast, hextensions⟩ := ih (hgrounded.extends hfirst) hchild
      refine ⟨last, grown, ?_, hlast, hfirst.trans hextensions⟩
      rw [List.foldlM_cons, perform_bind_of_ok hperform, hrest]

theorem extensions_enterSpace {graph : ScopeGraph} (hgrounded : graph.Grounded)
    (parent : ScopeId) (name : String) :
    Extensions accepts graph ((enterSpace parent name).perform graph).2 := by
  rw [perform_enterSpace]
  split
  · rename_i hparent
    obtain ⟨child, grown, hperform, _, hextensions⟩ :=
      extensions_childOrNew hgrounded hparent name
    rw [hperform]
    exact hextensions
  · exact .refl

theorem extensions_newBlock (parent : ScopeId) (graph : ScopeGraph) :
    Extensions accepts graph ((newBlock parent).perform graph).2 := by
  rw [perform_newBlock]
  split
  · rename_i hparent
    exact .single (.block parent hparent)
  · exact .refl

theorem extensions_pullIn (scope : ScopeId) (name : String) (source : ScopeId)
    (graph : ScopeGraph) :
    Extensions accepts graph ((pullIn scope name source).perform graph).2 := by
  rw [perform_pullIn]
  split
  · exact .refl
  · rename_i hscope
    split
    · exact .refl
    · rename_i hsource
      rw [Bool.not_eq_false] at hscope hsource
      unfold withPullIn
      split
      · exact .refl
      · rename_i hnew
        rw [List.contains_iff_mem] at hnew
        exact .single (.pull scope name source hscope hsource hnew)

theorem extensions_newType (scope : ScopeId) (name : String) (graph : ScopeGraph) :
    Extensions accepts graph ((newType scope name).perform graph).2 := by
  rw [perform_newType]
  split
  · exact .refl
  · rename_i hscope
    split
    · exact .refl
    · rename_i hfresh
      rw [Bool.not_eq_false] at hscope
      rw [Bool.not_eq_true, Option.isSome_eq_false_iff, Option.isNone_iff_eq_none] at hfresh
      exact .single (.plainType scope name hscope hfresh)

/-- The type of a new class is inserted without fail, because all edges of a built graph
come from scopes that it holds. -/
theorem extensions_newClass {graph : ScopeGraph} (hgrounded : graph.Grounded)
    (scope : ScopeId) (name : String) (bases : List Fingerprint) :
    Extensions accepts graph ((newClass scope name bases).perform graph).2 := by
  rw [perform_newClass]
  split
  · exact .refl
  · rename_i hscope
    cases hbodies : bases.mapM graph.classScope with
    | error error => exact .refl
    | ok bodies =>
        rw [Traversal.mapM_eq_ok_iff] at hbodies
        simp only [classScope_eq_ok_iff] at hbodies
        dsimp only
        split
        · exact .refl
        · rename_i hfresh
          rw [Bool.not_eq_false] at hscope
          rw [Bool.not_eq_true, Option.isSome_eq_false_iff, Option.isNone_iff_eq_none] at hfresh
          rw [perform_insertType_classScope (fun edge hedge => (hgrounded.edge_held edge hedge).1)
            hscope hfresh]
          exact .single (.classType scope name bases bodies hscope hbodies hfresh)

theorem extensions_declareAsIs (declaration : Declaration)
    (haccepts : accepts declaration.signature) (graph : ScopeGraph) :
    Extensions accepts graph ((declareAsIs declaration).perform graph).2 := by
  rw [perform_declareAsIs]
  cases hrefusal : declaration.refusal graph with
  | some error => exact .refl
  | none =>
      obtain ⟨horigin, hmember, hfresh, hspace⟩ :=
        (declaration.refusal_eq_none_iff graph).mp hrefusal
      refine .single (.signature _ _ haccepts horigin hmember hfresh ?_)
      intro other hother
      exact ⟨Declaration.ne_origin_of_mem_elsewhere hother, hspace other hother⟩

section Checked

variable (haccepts : ∀ signature : Signature, signature.check = .ok () → accepts signature)
include haccepts

theorem extensions_declare (declaration : Declaration) (graph : ScopeGraph) :
    Extensions accepts graph ((declare declaration).perform graph).2 := by
  rw [perform_declare]
  cases hcheck : declaration.signature.check with
  | error defect => exact .refl
  | ok accepted => exact extensions_declareAsIs declaration (haccepts _ hcheck) graph

theorem extensions_declareAll (declarations : List Declaration) (graph : ScopeGraph) :
    Extensions accepts graph ((declareAll declarations).perform graph).2 := by
  unfold declareAll
  induction declarations generalizing graph with
  | nil => exact .refl
  | cons declaration rest ih =>
      have hfirst := extensions_declare haccepts declaration graph
      rw [List.mapM_cons, perform_bind]
      cases hperform : (declare declaration).perform graph with
      | mk answer middle =>
          rw [hperform] at hfirst
          cases answer with
          | error error => exact hfirst
          | ok fingerprint =>
              have hrest := hfirst.trans (ih middle)
              simp only [perform_bind]
              cases hmore : (rest.mapM declare).perform middle with
              | mk answers grown =>
                  rw [hmore] at hrest
                  cases answers with
                  | error error => exact hrest
                  | ok fingerprints => exact hrest

/-- A declaration in the scope of a class that has to be found first. -/
theorem extensions_declareInClass (type : Fingerprint) (declaration : ScopeId → Declaration)
    (graph : ScopeGraph) :
    Extensions accepts graph
      ((requireClass type >>= fun scope => declare (declaration scope)).perform graph).2 := by
  rw [perform_bind, perform_requireClass]
  cases graph.classScope type with
  | error error => exact .refl
  | ok scope => exact extensions_declare haccepts (declaration scope) graph

end Checked

end Registration

/-! ## Commands and histories -/

namespace Command

open ScopeGraph

/-- The command does not skip the check of a signature's form. -/
def isChecked : Command → Bool
  | .declareAsIs _ => false
  | _ => true

/-- A signature that the command stores unchecked meets `accepts`. -/
def Respects (command : Command) (accepts : Signature → Prop) : Prop :=
  ∀ declaration, command = .declareAsIs declaration → accepts declaration.signature

theorem respects_of_isChecked {command : Command} (hchecked : command.isChecked = true)
    (accepts : Signature → Prop) : command.Respects accepts := by
  rintro declaration rfl
  cases hchecked

variable {accepts : Signature → Prop}

theorem extensions_run
    (haccepts : ∀ signature : Signature, signature.check = .ok () → accepts signature)
    {command : Command} (hrespects : command.Respects accepts) {graph : ScopeGraph}
    (hgrounded : graph.Grounded) :
    Extensions accepts graph (command.run graph).2 := by
  cases command <;> simp only [run, registration, Registration.perform_map]
  case enterPath path =>
      have hroot : graph.holds ScopeId.root = true := (graph.holds_iff _).mpr hgrounded.size_pos
      obtain ⟨last, grown, hperform, _, hextensions⟩ :=
        Registration.extensions_enterPath hgrounded hroot path
      rw [Registration.enterPath, hperform]
      exact hextensions
  case enterSpace parent name => exact Registration.extensions_enterSpace hgrounded parent name
  case newBlock parent => exact Registration.extensions_newBlock parent graph
  case pullIn scope name source => exact Registration.extensions_pullIn scope name source graph
  case newType scope name => exact Registration.extensions_newType scope name graph
  case newClass scope name bases =>
      exact Registration.extensions_newClass hgrounded scope name bases
  case declare declaration => exact Registration.extensions_declare haccepts declaration graph
  case declareAsIs declaration =>
      exact Registration.extensions_declareAsIs declaration (hrespects declaration rfl) graph
  case declareAll declarations =>
      exact Registration.extensions_declareAll haccepts declarations graph
  case newFunction => exact Registration.extensions_declare haccepts _ graph
  case newMethod type _ _ _ => exact Registration.extensions_declareInClass haccepts type _ graph
  case newOperator => exact Registration.extensions_declare haccepts _ graph
  case newMemberOperator type _ _ _ =>
      exact Registration.extensions_declareInClass haccepts type _ graph

theorem extensions_runAll
    (haccepts : ∀ signature : Signature, signature.check = .ok () → accepts signature)
    {commands : List Command} (hrespects : ∀ command ∈ commands, command.Respects accepts)
    {graph : ScopeGraph} (hgrounded : graph.Grounded) :
    Extensions accepts graph (runAll commands graph) := by
  induction commands generalizing graph with
  | nil => exact .refl
  | cons command rest ih =>
      have hfirst := extensions_run haccepts (hrespects command List.mem_cons_self) hgrounded
      exact hfirst.trans (ih (fun other hother => hrespects other (List.mem_cons_of_mem _ hother))
        (hgrounded.extends hfirst))

end Command

namespace ScopeGraph

/-- The graph is left by these commands, from the root namespace alone or with the
built-in scalars. -/
def BuiltBy (commands : List Command) (graph : ScopeGraph) : Prop :=
  graph = Command.runAll commands empty ∨ graph = Command.runAll commands withScalars

/-- The graph is left by some history of commands, failures included. -/
def Built (graph : ScopeGraph) : Prop :=
  ∃ commands, BuiltBy commands graph

/-- The same, where every signature passed the check of its form. -/
def BuiltChecked (graph : ScopeGraph) : Prop :=
  ∃ commands, (∀ command ∈ commands, command.isChecked = true) ∧ BuiltBy commands graph

variable {accepts : Signature → Prop} {motive : ScopeGraph → Prop}

theorem Extensions.induct {graph grown : ScopeGraph}
    (hextensions : Extensions accepts graph grown) (hgrounded : graph.Grounded)
    (hstep : ∀ graph grown, graph.Grounded → Extension accepts graph grown →
      motive graph → motive grown)
    (hstart : motive graph) : motive grown := by
  induction hextensions with
  | refl => exact hstart
  | tail hextensions hextension ih =>
      exact hstep _ _ (hgrounded.extends hextensions) hextension ih

/-- What every history of commands keeps, once every change keeps it. -/
theorem BuiltBy.induct {commands : List Command} {graph : ScopeGraph}
    (hbuilt : BuiltBy commands graph)
    (haccepts : ∀ signature : Signature, signature.check = .ok () → accepts signature)
    (hrespects : ∀ command ∈ commands, command.Respects accepts)
    (hempty : motive empty) (hscalars : motive withScalars)
    (hstep : ∀ graph grown, graph.Grounded → Extension accepts graph grown →
      motive graph → motive grown) : motive graph := by
  rcases hbuilt with rfl | rfl
  · exact (Command.extensions_runAll haccepts hrespects grounded_empty).induct
      grounded_empty hstep hempty
  · exact (Command.extensions_runAll haccepts hrespects grounded_withScalars).induct
      grounded_withScalars hstep hscalars

theorem Built.induct {graph : ScopeGraph} (hbuilt : graph.Built)
    (hempty : motive empty) (hscalars : motive withScalars)
    (hstep : ∀ graph grown, graph.Grounded → Extension (fun _ => True) graph grown →
      motive graph → motive grown) : motive graph := by
  obtain ⟨commands, hbuilt⟩ := hbuilt
  exact hbuilt.induct (fun _ _ => trivial) (fun _ _ _ _ => trivial) hempty hscalars hstep

theorem BuiltChecked.induct {graph : ScopeGraph} (hbuilt : graph.BuiltChecked)
    (hempty : motive empty) (hscalars : motive withScalars)
    (hstep : ∀ graph grown, graph.Grounded →
      Extension (fun signature => signature.check = .ok ()) graph grown →
        motive graph → motive grown) : motive graph := by
  obtain ⟨commands, hchecked, hbuilt⟩ := hbuilt
  refine hbuilt.induct (fun _ hcheck => hcheck) ?_ hempty hscalars hstep
  intro command hcommand
  exact Command.respects_of_isChecked (hchecked command hcommand) _

/-- A history can be continued. -/
theorem BuiltBy.runAll {history : List Command} {graph : ScopeGraph}
    (hbuilt : BuiltBy history graph) (commands : List Command) :
    BuiltBy (history ++ commands) (Command.runAll commands graph) := by
  unfold BuiltBy Command.runAll
  rw [List.foldl_append, List.foldl_append]
  exact hbuilt.imp (fun h => by rw [h]; rfl) (fun h => by rw [h]; rfl)

theorem Built.runAll {graph : ScopeGraph} (hbuilt : graph.Built) (commands : List Command) :
    (Command.runAll commands graph).Built := by
  obtain ⟨history, hgraph⟩ := hbuilt
  exact ⟨history ++ commands, hgraph.runAll commands⟩

theorem BuiltChecked.runAll {graph : ScopeGraph} (hbuilt : graph.BuiltChecked)
    {commands : List Command} (hchecked : ∀ command ∈ commands, command.isChecked = true) :
    (Command.runAll commands graph).BuiltChecked := by
  obtain ⟨history, hhistory, hgraph⟩ := hbuilt
  refine ⟨history ++ commands, ?_, hgraph.runAll commands⟩
  intro command hmem
  rcases List.mem_append.mp hmem with hmem | hmem
  · exact hhistory command hmem
  · exact hchecked command hmem

theorem Built.grounded {graph : ScopeGraph} (hbuilt : graph.Built) : graph.Grounded :=
  hbuilt.induct grounded_empty grounded_withScalars
    fun _ _ _ hextension hgrounded => hgrounded.extend hextension

end ScopeGraph
end CallResolution
