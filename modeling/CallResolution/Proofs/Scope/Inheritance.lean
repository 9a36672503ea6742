import Mathlib.Data.List.Forall2
import Mathlib.Data.List.Nodup
import Mathlib.Tactic
import CallResolution.Proofs.Scope.Hierarchy

/-!
# The two records of inheritance

Inheritance is written down twice: as edges between class scopes and as the bases in the
record of a class.  Look-ups read the records and the question whether one class derives
from another reads the edges.  In a graph built by commands the two agree: the edges that
leave a class scope lead, in order, to the scopes of the bases in its record.

Bases may be repeated; then so are the edges.
-/

namespace CallResolution
namespace ScopeGraph

/-- The edges of inheritance are those of the bases in the records, and the classes among
the registered types are the class scopes. -/
structure Inheritance (graph : ScopeGraph) : Prop where
  types_once : (graph.types.map (·.type)).Nodup
  body_class : ∀ type scope, graph.body? type = some scope →
    graph.kind? scope = some (.classBody type)
  plain_bases : ∀ record ∈ graph.types, record.body = none → record.bases = []
  inherits_class : ∀ edge ∈ graph.edges, edge.label = .inherits →
    ∃ type, graph.kind? edge.source = some (.classBody type)
  inherits_bases : ∀ scope type record, graph.kind? scope = some (.classBody type) →
    graph.registered? type = some record →
      (graph.inheritedScopes scope).reverse.map some = record.bases.map graph.body?

/-! ## What a change adds -/

section Change

variable {graph grown : ScopeGraph}

theorem inheritedScopes_eq (graph : ScopeGraph) (scope : ScopeId) :
    graph.inheritedScopes scope =
      ((graph.edges.filter (·.label = .inherits)).filter (·.source = scope)).map (·.target) := by
  unfold inheritedScopes
  induction graph.edges with
  | nil => rfl
  | cons edge rest ih =>
      by_cases hlabel : edge.label = .inherits
      · by_cases hsource : edge.source = scope <;> simp [hlabel, hsource, ih]
      · simp [hlabel, ih]

theorem mem_inheritedScopes_iff {scope target : ScopeId} :
    target ∈ graph.inheritedScopes scope ↔ ⟨scope, target, .inherits⟩ ∈ graph.edges := by
  simp only [inheritedScopes, List.mem_filterMap, Option.ite_none_right_eq_some,
    Option.some.injEq]
  constructor
  · rintro ⟨⟨source, other, label⟩, hedge, ⟨rfl, rfl⟩, rfl⟩
    exact hedge
  · intro hedge
    exact ⟨_, hedge, ⟨rfl, rfl⟩, rfl⟩

theorem kind?_append_of_eq_some {kind : ScopeKind}
    (hscopes : grown.scopes = graph.scopes ++ [Scope.ofKind kind]) {scope : ScopeId}
    {found : ScopeKind} (hkind : graph.kind? scope = some found) :
    grown.kind? scope = some found := by
  obtain ⟨contents, hcontents, hfound⟩ := Option.map_eq_some_iff.mp hkind
  obtain ⟨hheld, _⟩ := List.getElem?_eq_some_iff.mp hcontents
  rw [kind?, contents?, hscopes, List.getElem?_append_left hheld]
  exact hkind

theorem kind?_append_new {kind : ScopeKind}
    (hscopes : grown.scopes = graph.scopes ++ [Scope.ofKind kind]) :
    grown.kind? ⟨graph.size⟩ = some kind := by
  simp [kind?, contents?, hscopes, size, Scope.ofKind]

theorem holds_of_kind? {scope : ScopeId} {kind : ScopeKind}
    (hkind : graph.kind? scope = some kind) : graph.holds scope = true := by
  obtain ⟨contents, hcontents, _⟩ := Option.map_eq_some_iff.mp hkind
  exact (graph.holds_iff scope).mpr (List.getElem?_eq_some_iff.mp hcontents).1

/-- A change that makes no type and no class scope keeps both records. -/
theorem Inheritance.of_same (hinheritance : graph.Inheritance)
    (htypes : grown.types = graph.types)
    (hclass : ∀ scope type, grown.kind? scope = some (.classBody type) ↔
      graph.kind? scope = some (.classBody type))
    (hedges : grown.edges.filter (·.label = .inherits) =
      graph.edges.filter (·.label = .inherits)) : grown.Inheritance := by
  have hregistered : grown.registered? = graph.registered? := by
    funext type
    rw [registered?, registered?, htypes]
  have hbody : grown.body? = graph.body? := by
    funext type
    rw [body?, body?, hregistered]
  refine ⟨htypes ▸ hinheritance.types_once, ?_, htypes ▸ hinheritance.plain_bases, ?_, ?_⟩
  · intro type scope hfound
    exact (hclass scope type).mpr (hinheritance.body_class type scope (hbody ▸ hfound))
  · intro edge hedge hlabel
    have hmem : edge ∈ grown.edges.filter (·.label = .inherits) :=
      List.mem_filter.mpr ⟨hedge, by simpa using hlabel⟩
    rw [hedges] at hmem
    obtain ⟨type, hkind⟩ := hinheritance.inherits_class edge (List.mem_filter.mp hmem).1 hlabel
    exact ⟨type, (hclass _ type).mpr hkind⟩
  · intro scope type record hkind hrecord
    rw [inheritedScopes_eq, hedges, ← inheritedScopes_eq, hbody]
    rw [hclass] at hkind
    rw [hregistered] at hrecord
    exact hinheritance.inherits_bases scope type record hkind hrecord

theorem nodup_types_append {record : TypeRecord}
    (honce : (graph.types.map (·.type)).Nodup) (hfresh : graph.registered? record.type = none) :
    ((graph.types ++ [record]).map (·.type)).Nodup := by
  rw [List.map_append, List.map_singleton, ← List.concat_eq_append, List.nodup_concat]
  refine ⟨?_, honce⟩
  intro hmem
  obtain ⟨other, hother, hsame⟩ := List.mem_map.mp hmem
  have hnone := List.find?_eq_none.mp hfresh other hother
  simp [hsame] at hnone

/-- A type that is no class has no scope and adds no bases. -/
theorem Inheritance.of_plainType (hinheritance : graph.Inheritance)
    (hhierarchy : graph.Hierarchy) {record : TypeRecord}
    (hfresh : graph.registered? record.type = none) (hplain : record.body = none)
    (hbases : record.bases = []) : (graph.addType record).Inheritance := by
  have hregistered := @registered?_append graph (graph.addType record) record rfl
  have hbody : (graph.addType record).body? = graph.body? := by
    funext type
    rw [body?, body?, hregistered]
    cases hold : graph.registered? type with
    | some found => rfl
    | none => by_cases hsame : record.type = type <;> simp [hsame, hplain]
  refine ⟨nodup_types_append hinheritance.types_once hfresh, ?_, ?_,
    hinheritance.inherits_class, ?_⟩
  · intro type scope hfound
    exact hinheritance.body_class type scope (hbody ▸ hfound)
  · intro other hother hnone
    rcases List.mem_append.mp hother with hold | hnew
    · exact hinheritance.plain_bases other hold hnone
    · exact List.mem_singleton.mp hnew ▸ hbases
  · intro scope type found hkind hfound
    rw [hbody]
    rcases registered?_of_append rfl hfound with hold | rfl
    · exact hinheritance.inherits_bases scope type found hkind hold
    · have hclass := hhierarchy.class_body scope type hkind
      rw [← hbody, body?, hfound, Option.bind_some, hplain] at hclass
      cases hclass

section ClassType

variable {scope : ScopeId} {name : String} {bases : List Fingerprint} {bodies : List ScopeId}

theorem filter_edges_withClass (graph : ScopeGraph) :
    (graph.withClass scope name bases bodies).edges.filter (·.label = .inherits) =
      (bodies.map fun body => (⟨⟨graph.size⟩, body, .inherits⟩ : Edge)).reverse ++
        graph.edges.filter (·.label = .inherits) := by
  rw [edges_withClass, List.filter_append, List.filter_cons_of_neg (by simp)]
  congr 1
  rw [List.filter_eq_self]
  simp

theorem inheritedScopes_withClass_new (hgrounded : graph.Grounded) :
    (graph.withClass scope name bases bodies).inheritedScopes ⟨graph.size⟩ = bodies.reverse := by
  have hold : (graph.edges.filter (·.label = .inherits)).filter
      (·.source = (⟨graph.size⟩ : ScopeId)) = [] := by
    rw [List.filter_eq_nil_iff]
    intro edge hedge hsource
    have hheld := (hgrounded.edge_held edge (List.mem_filter.mp hedge).1).1
    rw [of_decide_eq_true hsource, holds_iff] at hheld
    exact Nat.lt_irrefl _ hheld
  rw [inheritedScopes_eq, filter_edges_withClass, List.filter_append, hold, List.append_nil,
    List.filter_eq_self.mpr (by simp), List.map_reverse, List.map_map]
  simp [Function.comp_def]

theorem inheritedScopes_withClass_old {other : ScopeId} (hold : graph.holds other = true) :
    (graph.withClass scope name bases bodies).inheritedScopes other =
      graph.inheritedScopes other := by
  have hne : (⟨graph.size⟩ : ScopeId) ≠ other := by
    rintro rfl
    exact Nat.lt_irrefl _ ((graph.holds_iff _).mp hold)
  rw [inheritedScopes_eq, filter_edges_withClass, List.filter_append,
    List.filter_eq_nil_iff.mpr (by simp [hne]), List.nil_append, ← inheritedScopes_eq]

theorem registered?_withClass (graph : ScopeGraph) (type : Fingerprint) :
    (graph.withClass scope name bases bodies).registered? type =
      (graph.registered? type).or (if graph.typeIn scope name = type
        then some (graph.recordIn scope name (some ⟨graph.size⟩) bases) else none) :=
  registered?_append (types_withClass ..) type

theorem kind?_withClass_new (graph : ScopeGraph) :
    (graph.withClass scope name bases bodies).kind? ⟨graph.size⟩ =
      some (.classBody (graph.typeIn scope name)) :=
  kind?_append_new (scopes_withClass ..)

theorem kind?_withClass_of_eq_some {other : ScopeId} {kind : ScopeKind}
    (hkind : graph.kind? other = some kind) :
    (graph.withClass scope name bases bodies).kind? other = some kind :=
  kind?_append_of_eq_some (scopes_withClass ..) hkind

section Old

variable (hinheritance : graph.Inheritance)
include hinheritance

theorem Inheritance.body_class_withClass {type : Fingerprint} {body : ScopeId}
    (hbody : (graph.withClass scope name bases bodies).body? type = some body) :
    (graph.withClass scope name bases bodies).kind? body = some (.classBody type) := by
  rw [body?, registered?_withClass, Option.bind_eq_some_iff] at hbody
  obtain ⟨record, hrecord, hbody⟩ := hbody
  rcases Option.or_eq_some_iff.mp hrecord with hold | ⟨_, hnew⟩
  · have hclass : graph.body? type = some body := by
      rw [body?, hold]
      exact hbody
    exact kind?_withClass_of_eq_some (hinheritance.body_class type body hclass)
  · obtain ⟨htype, hsame⟩ := Option.ite_none_right_eq_some.mp hnew
    rw [← htype]
    rw [← Option.some.inj hsame] at hbody
    rw [← Option.some.inj hbody]
    exact kind?_withClass_new graph

theorem Inheritance.inherits_class_withClass {edge : Edge}
    (hedge : edge ∈ (graph.withClass scope name bases bodies).edges)
    (hlabel : edge.label = .inherits) :
    ∃ type, (graph.withClass scope name bases bodies).kind? edge.source =
      some (.classBody type) := by
  have hmem : edge ∈ (graph.withClass scope name bases bodies).edges.filter
      (·.label = .inherits) := List.mem_filter.mpr ⟨hedge, by simpa using hlabel⟩
  rw [filter_edges_withClass, List.mem_append, List.mem_reverse, List.mem_map] at hmem
  rcases hmem with ⟨body, _, rfl⟩ | hold
  · exact ⟨_, kind?_withClass_new graph⟩
  · obtain ⟨type, hkind⟩ := hinheritance.inherits_class edge (List.mem_filter.mp hold).1 hlabel
    exact ⟨type, kind?_withClass_of_eq_some hkind⟩

variable {accepts : Signature → Prop}
  (hextension : Extension accepts graph (graph.withClass scope name bases bodies))
include hextension

/-- The bases of an old class are old classes, whose scopes are known and stay. -/
theorem Inheritance.inherits_bases_withClass_old (hhierarchy : graph.Hierarchy) {body : ScopeId}
    {type : Fingerprint} {record : TypeRecord} (hkind : graph.kind? body = some (.classBody type))
    (hrecord : (graph.withClass scope name bases bodies).registered? type = some record) :
    ((graph.withClass scope name bases bodies).inheritedScopes body).reverse.map some =
      record.bases.map (graph.withClass scope name bases bodies).body? := by
  obtain ⟨found, hfound, _⟩ := Option.bind_eq_some_iff.mp (hhierarchy.class_body body type hkind)
  rw [hextension.registered?_eq_some hfound] at hrecord
  obtain rfl := Option.some.inj hrecord
  have hagree := hinheritance.inherits_bases body type found hkind hfound
  rw [inheritedScopes_withClass_old (holds_of_kind? hkind), hagree]
  apply List.map_congr_left
  intro base hbase
  have hmem : graph.body? base ∈ found.bases.map graph.body? := List.mem_map_of_mem hbase
  rw [← hagree] at hmem
  obtain ⟨older, _, holder⟩ := List.mem_map.mp hmem
  rw [← holder, hextension.body?_eq_some holder.symm]

omit hinheritance in
theorem inherits_bases_withClass_new (hgrounded : graph.Grounded)
    (hbodies : List.Forall₂ (fun base body => graph.body? base = some body) bases bodies) :
    ((graph.withClass scope name bases bodies).inheritedScopes ⟨graph.size⟩).reverse.map some =
      bases.map (graph.withClass scope name bases bodies).body? := by
  have hpairs := hbodies.imp fun _ _ hbody => hextension.body?_eq_some hbody
  rw [← List.forall₂_map_right_iff, ← List.forall₂_map_left_iff, List.forall₂_eq_eq_eq] at hpairs
  rw [inheritedScopes_withClass_new hgrounded, List.reverse_reverse]
  exact hpairs.symm

/-- A new class leads to the scopes of its bases. -/
theorem Inheritance.of_classType (hhierarchy : graph.Hierarchy) (hgrounded : graph.Grounded)
    (hbodies : List.Forall₂ (fun base body => graph.body? base = some body) bases bodies)
    (hfresh : graph.registered? (graph.typeIn scope name) = none) :
    (graph.withClass scope name bases bodies).Inheritance where
  types_once := by
    rw [types_withClass]
    exact nodup_types_append hinheritance.types_once hfresh
  body_class _ _ := hinheritance.body_class_withClass
  plain_bases record hrecord hplain := by
    rw [types_withClass, List.mem_append] at hrecord
    rcases hrecord with hold | hnew
    · exact hinheritance.plain_bases record hold hplain
    · rw [List.mem_singleton.mp hnew] at hplain
      cases hplain
  inherits_class _ := hinheritance.inherits_class_withClass
  inherits_bases body type record hkind hrecord := by
    rcases kind?_of_append (scopes_withClass ..) hkind with hold | ⟨rfl, hclass⟩
    · exact hinheritance.inherits_bases_withClass_old hextension hhierarchy hold hrecord
    · obtain rfl := ScopeKind.classBody.inj hclass
      rw [registered?_withClass, hfresh, Option.none_or, if_pos rfl] at hrecord
      obtain rfl := Option.some.inj hrecord
      exact inherits_bases_withClass_new hextension hgrounded hbodies

end Old

end ClassType

theorem Inheritance.extend {accepts : Signature → Prop} (hinheritance : graph.Inheritance)
    (hhierarchy : graph.Hierarchy) (hgrounded : graph.Grounded)
    (hextension : Extension accepts graph grown) : grown.Inheritance := by
  have hclass : ∀ kind, (∀ type, kind ≠ .classBody type) →
      grown.scopes = graph.scopes ++ [Scope.ofKind kind] → ∀ scope type,
        grown.kind? scope = some (.classBody type) ↔
          graph.kind? scope = some (.classBody type) := by
    intro kind hother hscopes scope type
    refine ⟨fun hkind => ?_, kind?_append_of_eq_some hscopes⟩
    rcases kind?_of_append hscopes hkind with hold | ⟨_, hsame⟩
    · exact hold
    · exact absurd hsame.symm (hother type)
  cases hextension with
  | space | block =>
      refine hinheritance.of_same rfl (hclass _ (by simp) rfl) ?_
      rw [edges_withChild, List.filter_cons_of_neg (by simp)]
  | pull =>
      refine hinheritance.of_same rfl (fun _ _ => Iff.rfl) ?_
      exact List.filter_cons_of_neg (by simp)
  | plainType _ _ _ hfresh => exact hinheritance.of_plainType hhierarchy hfresh rfl rfl
  | classType _ _ _ _ hscope hbodies hfresh =>
      have hgrown : Extension accepts graph (graph.withClass _ _ _ _) :=
        .classType _ _ _ _ hscope hbodies hfresh
      exact hinheritance.of_classType hgrown hhierarchy hgrounded hbodies hfresh
  | signature =>
      refine hinheritance.of_same (by simp) (fun _ _ => by rw [kind?_withSignature]) ?_
      rw [edges_withSignature]

end Change

theorem inheritance_of_no_classes {graph : ScopeGraph}
    (honce : (graph.types.map (·.type)).Nodup) (hhierarchy : graph.Hierarchy)
    (hplain : ∀ record ∈ graph.types, record.body = none ∧ record.bases = [])
    (hedges : graph.edges = []) : graph.Inheritance := by
  have hbody : ∀ type, graph.body? type = none := by
    intro type
    rw [body?, Option.bind_eq_none_iff]
    intro record hrecord
    exact (hplain record (List.mem_of_find?_eq_some hrecord)).1
  refine ⟨honce, ?_, fun record hrecord _ => (hplain record hrecord).2, by simp [hedges], ?_⟩
  · intro type scope hfound
    rw [hbody] at hfound
    cases hfound
  · intro scope type record hkind
    have hclass := hhierarchy.class_body scope type hkind
    rw [hbody] at hclass
    cases hclass

theorem Built.inheritance {graph : ScopeGraph} (hbuilt : graph.Built) : graph.Inheritance := by
  suffices hboth : graph.Hierarchy ∧ graph.Inheritance from hboth.2
  have hempty : empty.Hierarchy := hierarchy_of_no_classes rfl (by simp [empty])
  have hscalars : withScalars.Hierarchy :=
    hierarchy_of_no_classes rfl (by simp [withScalars, TypeRecord.ofScalar])
  refine @Built.induct (fun grown => grown.Hierarchy ∧ grown.Inheritance) graph hbuilt
    ⟨hempty, ?_⟩ ⟨hscalars, ?_⟩ ?_
  · exact inheritance_of_no_classes (by simp [empty]) hempty (by simp [empty]) rfl
  · exact inheritance_of_no_classes (by decide +kernel) hscalars
      (by simp [withScalars, TypeRecord.ofScalar]) rfl
  · rintro _ _ hgrounded hextension ⟨hhierarchy, hinheritance⟩
    exact ⟨hhierarchy.extend hgrounded hextension,
      hinheritance.extend hhierarchy hgrounded hextension⟩

end ScopeGraph
end CallResolution
