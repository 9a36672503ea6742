import Mathlib.Data.List.Forall2
import Mathlib.Tactic
import CallResolution.Proofs.Scope.Growth

/-!
# Bases are older

In a graph built by commands the scope of a class is the one that its type is registered
with, and the scopes of its direct bases were made before it.  So following bases ends.
Pulling in has no such order: a scope may pull from a younger scope, or from itself.
-/

namespace CallResolution
namespace ScopeGraph

/-! ## Registered types stay registered -/

section Register

variable {graph grown : ScopeGraph} {record : TypeRecord}

theorem registered?_append (htypes : grown.types = graph.types ++ [record])
    (type : Fingerprint) :
    grown.registered? type =
      (graph.registered? type).or (if record.type = type then some record else none) := by
  rw [registered?, htypes, List.find?_append, registered?]
  congr 1
  by_cases hsame : record.type = type
  · simp [hsame]
  · simp [hsame]

theorem registered?_of_append (htypes : grown.types = graph.types ++ [record])
    {type : Fingerprint} {found : TypeRecord} (hfound : grown.registered? type = some found) :
    graph.registered? type = some found ∨ found = record := by
  rw [registered?_append htypes, Option.or_eq_some_iff] at hfound
  rcases hfound with hold | ⟨_, hnew⟩
  · exact Or.inl hold
  · exact Or.inr (Option.some.inj (Option.ite_none_right_eq_some.mp hnew).2).symm

variable {accepts : Signature → Prop}

theorem Extension.registered?_eq_some (hextension : Extension accepts graph grown)
    {type : Fingerprint} (hrecord : graph.registered? type = some record) :
    grown.registered? type = some record := by
  cases hextension with
  | space | block | pull => exact hrecord
  | plainType => rw [registered?_append rfl, hrecord, Option.some_or]
  | classType => rw [registered?_append (types_withClass ..), hrecord, Option.some_or]
  | signature =>
      rw [registered?, types_withSignature]
      exact hrecord

theorem Extension.body?_eq_some (hextension : Extension accepts graph grown)
    {type : Fingerprint} {body : ScopeId} (hbody : graph.body? type = some body) :
    grown.body? type = some body := by
  obtain ⟨record, hrecord, hbody⟩ := Option.bind_eq_some_iff.mp hbody
  rw [body?, hextension.registered?_eq_some hrecord]
  exact hbody

end Register

/-! ## The invariant -/

/-- Class scopes are the scopes of registered types, and bases were made before. -/
structure Hierarchy (graph : ScopeGraph) : Prop where
  class_body : ∀ scope type, graph.kind? scope = some (.classBody type) →
    graph.body? type = some scope
  bases_older : ∀ type record body, graph.registered? type = some record →
    record.body = some body → ∀ base ∈ record.bases,
      ∃ older, graph.body? base = some older ∧ older.index < body.index

theorem kind?_of_append {graph grown : ScopeGraph} {kind : ScopeKind}
    (hscopes : grown.scopes = graph.scopes ++ [Scope.ofKind kind]) {scope : ScopeId}
    {found : ScopeKind} (hkind : grown.kind? scope = some found) :
    graph.kind? scope = some found ∨ scope = ⟨graph.size⟩ ∧ found = kind := by
  rw [kind?, contents?, hscopes] at hkind
  rcases Nat.lt_trichotomy scope.index graph.scopes.length with hold | hnew | hbeyond
  · rw [List.getElem?_append_left hold] at hkind
    exact Or.inl hkind
  · rw [List.getElem?_append_right hnew.ge, hnew, Nat.sub_self] at hkind
    refine Or.inr ⟨ScopeId.ext hnew, ?_⟩
    simpa [Scope.ofKind] using hkind.symm
  · rw [List.getElem?_eq_none (by simpa using hbeyond)] at hkind
    cases hkind

/-- A change keeps the order as long as its new scope and its new type keep it. -/
theorem Hierarchy.of_new {accepts : Signature → Prop} {graph grown : ScopeGraph}
    (hhierarchy : graph.Hierarchy) (hextension : Extension accepts graph grown)
    (hclass : ∀ scope type, grown.kind? scope = some (.classBody type) →
      graph.kind? scope = some (.classBody type) ∨ grown.body? type = some scope)
    (hrecord : ∀ type record body, grown.registered? type = some record →
      record.body = some body → graph.registered? type = some record ∨
        ∀ base ∈ record.bases, ∃ older, graph.body? base = some older ∧
          older.index < body.index) :
    grown.Hierarchy where
  class_body scope type hkind := by
    rcases hclass scope type hkind with hold | hnew
    · exact hextension.body?_eq_some (hhierarchy.class_body scope type hold)
    · exact hnew
  bases_older type record body hregistered hbody base hbase := by
    have holder : ∃ older, graph.body? base = some older ∧ older.index < body.index := by
      rcases hrecord type record body hregistered hbody with hold | hnew
      · exact hhierarchy.bases_older type record body hold hbody base hbase
      · exact hnew base hbase
    obtain ⟨older, hfound, hlt⟩ := holder
    exact ⟨older, hextension.body?_eq_some hfound, hlt⟩

theorem Hierarchy.extend {accepts : Signature → Prop} {graph grown : ScopeGraph}
    (hhierarchy : graph.Hierarchy) (hgrounded : graph.Grounded)
    (hextension : Extension accepts graph grown) : grown.Hierarchy := by
  refine hhierarchy.of_new hextension ?_ ?_
  · intro scope type hkind
    cases hextension with
    | space | block =>
        rcases kind?_of_append rfl hkind with hold | ⟨_, hnew⟩
        · exact Or.inl hold
        · cases hnew
    | pull | plainType => exact Or.inl hkind
    | classType outer name bases bodies _ _ hfresh =>
        rcases kind?_of_append (scopes_withClass ..) hkind with hold | ⟨rfl, hnew⟩
        · exact Or.inl hold
        · obtain rfl := ScopeKind.classBody.inj hnew
          right
          rw [body?, registered?_append (types_withClass ..), hfresh]
          simp [recordIn]
    | signature => exact Or.inl (by simpa using hkind)
  · intro type record body hregistered hbody
    cases hextension with
    | space | block | pull => exact Or.inl hregistered
    | plainType =>
        rcases registered?_of_append rfl hregistered with hold | rfl
        · exact Or.inl hold
        · cases hbody
    | classType outer name bases bodies _ hbodies _ =>
        rcases registered?_of_append (types_withClass ..) hregistered with hold | rfl
        · exact Or.inl hold
        · obtain rfl := Option.some.inj hbody
          right
          intro base hbase
          obtain ⟨older, _, hfound⟩ := Traversal.exists_of_mem_left hbodies hbase
          exact ⟨older, hfound, (graph.holds_iff older).mp (hgrounded.holds_body hfound)⟩
    | signature =>
        left
        rw [registered?, types_withSignature] at hregistered
        exact hregistered

theorem hierarchy_of_no_classes {graph : ScopeGraph} (hscopes : graph.scopes = empty.scopes)
    (htypes : ∀ record ∈ graph.types, record.body = none) : graph.Hierarchy where
  class_body scope type hkind := by
    obtain ⟨contents, hcontents, hclass⟩ := Option.map_eq_some_iff.mp hkind
    have hmem : contents ∈ graph.scopes := List.mem_of_getElem? hcontents
    rw [hscopes, empty, List.mem_singleton] at hmem
    rw [hmem] at hclass
    cases hclass
  bases_older type record body hrecord hbody := by
    rw [htypes record (List.mem_of_find?_eq_some hrecord)] at hbody
    cases hbody

theorem Built.hierarchy {graph : ScopeGraph} (hbuilt : graph.Built) : graph.Hierarchy := by
  refine hbuilt.induct (hierarchy_of_no_classes rfl ?_) (hierarchy_of_no_classes rfl ?_)
    fun _ _ hgrounded hextension hhierarchy => hhierarchy.extend hgrounded hextension
  · simp [empty]
  · simp [withScalars, TypeRecord.ofScalar]

/-! ## Where bases and pull-ins lead -/

section Targets

variable {graph : ScopeGraph} {scope target : ScopeId}

/-- Only the scope of a class has bases. -/
theorem exists_class_of_directBases (hhierarchy : graph.Hierarchy)
    (hbase : target ∈ graph.directBases scope) :
    ∃ type record, graph.registered? type = some record ∧ record.body = some scope ∧
      ∃ base ∈ record.bases, graph.body? base = some target := by
  unfold directBases at hbase
  cases hkind : graph.kind? scope with
  | none => simp [hkind] at hbase
  | some kind =>
      cases kind with
      | space | block => simp [hkind] at hbase
      | classBody type =>
          have hbody := hhierarchy.class_body scope type hkind
          obtain ⟨record, hrecord, hbody⟩ := Option.bind_eq_some_iff.mp hbody
          simp only [hkind, hrecord, List.mem_filterMap] at hbase
          exact ⟨type, record, hrecord, hbody, hbase⟩

theorem directBases_older (hhierarchy : graph.Hierarchy)
    (hbase : target ∈ graph.directBases scope) : target.index < scope.index := by
  obtain ⟨type, record, hrecord, hbody, base, hmem, hfound⟩ :=
    exists_class_of_directBases hhierarchy hbase
  obtain ⟨older, holder, hlt⟩ :=
    hhierarchy.bases_older type record scope hrecord hbody base hmem
  rw [hfound] at holder
  exact Option.some.inj holder ▸ hlt

theorem holds_of_directBases (hbase : target ∈ graph.directBases scope) :
    graph.holds scope = true := by
  by_contra hunheld
  have hnone : graph.contents? scope = none := by
    rw [graph.holds_iff, Nat.not_lt] at hunheld
    exact List.getElem?_eq_none hunheld
  simp [directBases, kind?, hnone] at hbase

theorem mem_insertAscending_iff (scope other : ScopeId) (list : List ScopeId) :
    other ∈ insertAscending scope list ↔ other = scope ∨ other ∈ list := by
  induction list with
  | nil => simp [insertAscending]
  | cons first rest ih =>
      unfold insertAscending
      split
      · simp
      · simp only [List.mem_cons, ih]
        tauto

theorem mem_pulledFrom_iff {name : String} :
    target ∈ graph.pulledFrom scope name ↔ ⟨scope, target, .pullsIn name⟩ ∈ graph.edges := by
  have hfold : ∀ list : List ScopeId, target ∈ list.foldr insertAscending [] ↔ target ∈ list := by
    intro list
    induction list with
    | nil => simp
    | cons first rest ih => rw [List.foldr_cons, mem_insertAscending_iff, ih, List.mem_cons]
  rw [pulledFrom, hfold, List.mem_filterMap]
  constructor
  · rintro ⟨⟨source, other, label⟩, hedge, hfound⟩
    simp only [Option.ite_none_right_eq_some, Option.some.injEq] at hfound
    obtain ⟨⟨rfl, rfl⟩, rfl⟩ := hfound
    exact hedge
  · intro hedge
    exact ⟨_, hedge, by simp⟩

theorem pulledFrom_eq_nil {name : String}
    (hpulls : ∀ edge ∈ graph.edges, edge.label ≠ .pullsIn name) :
    graph.pulledFrom scope name = [] :=
  List.eq_nil_iff_forall_not_mem.mpr fun _ hpulled =>
    hpulls _ (mem_pulledFrom_iff.mp hpulled) rfl

theorem Grounded.holds_of_pulledFrom (hgrounded : graph.Grounded) {name : String}
    (hpulled : target ∈ graph.pulledFrom scope name) :
    graph.holds scope = true ∧ graph.holds target = true :=
  hgrounded.edge_held _ (mem_pulledFrom_iff.mp hpulled)

end Targets

end ScopeGraph
end CallResolution
