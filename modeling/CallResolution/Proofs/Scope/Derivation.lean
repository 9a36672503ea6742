import Mathlib.Data.Finset.Image
import Mathlib.Logic.Relation
import Mathlib.Tactic
import CallResolution.Proofs.Closure
import CallResolution.Proofs.Scope.Forest
import CallResolution.Proofs.Scope.Inheritance

/-!
# Derivation is the closure of direct bases

Whether one class derives from another is answered by following inheritance edges between
scopes.  The answer is the one that the bases in the records give: a class derives from its
bases, from their bases, and so on, and from nothing else.

Bases are older than the class, so derivation is a strict order.
-/

namespace CallResolution
namespace ScopeGraph

/-- The record of the first type has the second among its bases. -/
def HasBase (graph : ScopeGraph) (derived base : Fingerprint) : Prop :=
  ∃ record, graph.registered? derived = some record ∧ base ∈ record.bases

/-! ## Bases and edges -/

theorem Inheritance.hasBase_of_inherits {graph : ScopeGraph} (hinheritance : graph.Inheritance)
    {derived : Fingerprint} {source target : ScopeId}
    (hderived : graph.body? derived = some source)
    (hinherits : target ∈ graph.inheritedScopes source) :
    ∃ base, graph.HasBase derived base ∧ graph.body? base = some target := by
  obtain ⟨record, hrecord, _⟩ := Option.bind_eq_some_iff.mp hderived
  have hlisted : some target ∈ (graph.inheritedScopes source).reverse.map some := by
    simpa using hinherits
  rw [hinheritance.inherits_bases source derived record
    (hinheritance.body_class derived source hderived) hrecord] at hlisted
  obtain ⟨base, hbase, hbody⟩ := List.mem_map.mp hlisted
  exact ⟨base, ⟨record, hrecord, hbase⟩, hbody⟩

section Bases

variable {graph : ScopeGraph} (hhierarchy : graph.Hierarchy) (hinheritance : graph.Inheritance)
include hhierarchy hinheritance

theorem body?_eq_some_iff (type : Fingerprint) (scope : ScopeId) :
    graph.body? type = some scope ↔ graph.kind? scope = some (.classBody type) :=
  ⟨hinheritance.body_class type scope, hhierarchy.class_body scope type⟩

/-- Two types with one scope are one type. -/
theorem type_eq_of_body? {first second : Fingerprint} {scope : ScopeId}
    (hfirst : graph.body? first = some scope) (hsecond : graph.body? second = some scope) :
    first = second := by
  rw [body?_eq_some_iff hhierarchy hinheritance] at hfirst hsecond
  rw [hfirst] at hsecond
  exact ScopeKind.classBody.inj (Option.some.inj hsecond)

theorem HasBase.inherits {derived base : Fingerprint} (hbase : graph.HasBase derived base) :
    ∃ source target, graph.body? derived = some source ∧ graph.body? base = some target ∧
      target ∈ graph.inheritedScopes source ∧ target.index < source.index := by
  obtain ⟨record, hrecord, hmem⟩ := hbase
  cases hbody : record.body with
  | none =>
      rw [hinheritance.plain_bases record (List.mem_of_find?_eq_some hrecord) hbody] at hmem
      cases hmem
  | some source =>
      have hderived : graph.body? derived = some source := by rw [body?, hrecord, ← hbody]; rfl
      obtain ⟨target, htarget, holder⟩ :=
        hhierarchy.bases_older derived record source hrecord hbody base hmem
      have hlisted : some target ∈ record.bases.map graph.body? :=
        htarget ▸ List.mem_map_of_mem hmem
      rw [← hinheritance.inherits_bases source derived record
        (hinheritance.body_class derived source hderived) hrecord] at hlisted
      exact ⟨source, target, hderived, htarget, by simpa using hlisted, holder⟩

/-- Inheritance leads from class scopes to older class scopes. -/
theorem inherits_older {edge : Edge} (hedge : edge ∈ graph.edges)
    (hlabel : edge.label = .inherits) :
    (∃ type, graph.kind? edge.source = some (.classBody type)) ∧
      (∃ type, graph.kind? edge.target = some (.classBody type)) ∧
        edge.target.index < edge.source.index := by
  obtain ⟨derived, hkind⟩ := hinheritance.inherits_class edge hedge hlabel
  have hmem : edge.target ∈ graph.inheritedScopes edge.source := by
    rw [mem_inheritedScopes_iff, ← hlabel]
    exact hedge
  have hderived := hhierarchy.class_body edge.source derived hkind
  obtain ⟨base, hbase, htarget⟩ := hinheritance.hasBase_of_inherits hderived hmem
  obtain ⟨source, target, hsource, hfound, _, holder⟩ := hbase.inherits hhierarchy hinheritance
  rw [hderived] at hsource
  rw [htarget] at hfound
  obtain rfl := Option.some.inj hsource
  obtain rfl := Option.some.inj hfound
  exact ⟨⟨derived, hkind⟩, ⟨base, hinheritance.body_class base _ htarget⟩, holder⟩

/-! ## Paths -/

/-- A chain of bases is a path of edges. -/
theorem leads_of_bases {derived base : Fingerprint}
    (hbases : Relation.ReflTransGen graph.HasBase derived base) {source : ScopeId}
    (hderived : graph.body? derived = some source) :
    ∃ target, graph.body? base = some target ∧
      Closure.Leads graph.inheritedScopes source target := by
  induction hbases with
  | refl => exact ⟨source, hderived, .refl⟩
  | tail _ hbase ih =>
      obtain ⟨middle, hmiddle, hleads⟩ := ih
      obtain ⟨found, target, hfound, htarget, hinherits, _⟩ :=
        hbase.inherits hhierarchy hinheritance
      rw [hmiddle] at hfound
      obtain rfl := Option.some.inj hfound
      exact ⟨target, htarget, hleads.tail hinherits⟩

omit hhierarchy in
/-- A path of edges is a chain of bases. -/
theorem bases_of_leads {derived : Fingerprint} {source target : ScopeId}
    (hderived : graph.body? derived = some source)
    (hleads : Closure.Leads graph.inheritedScopes source target) :
    ∃ base, Relation.ReflTransGen graph.HasBase derived base ∧
      graph.body? base = some target := by
  induction hleads with
  | refl => exact ⟨derived, .refl, hderived⟩
  | tail _ hinherits ih =>
      obtain ⟨middle, hbases, hmiddle⟩ := ih
      obtain ⟨base, hbase, htarget⟩ := hinheritance.hasBase_of_inherits hmiddle hinherits
      exact ⟨base, hbases.tail hbase, htarget⟩

/-- A chain of bases goes from a class to older and older classes. -/
theorem older_of_bases {derived base : Fingerprint}
    (hbases : Relation.TransGen graph.HasBase derived base) :
    ∃ source target, graph.body? derived = some source ∧ graph.body? base = some target ∧
      target.index < source.index := by
  induction hbases with
  | single hbase =>
      obtain ⟨source, target, hsource, htarget, _, holder⟩ :=
        hbase.inherits hhierarchy hinheritance
      exact ⟨source, target, hsource, htarget, holder⟩
  | tail _ hbase ih =>
      obtain ⟨source, middle, hsource, hmiddle, hfirst⟩ := ih
      obtain ⟨found, target, hfound, htarget, _, hlast⟩ := hbase.inherits hhierarchy hinheritance
      rw [hmiddle] at hfound
      obtain rfl := Option.some.inj hfound
      exact ⟨source, target, hsource, htarget, hlast.trans hfirst⟩

end Bases

/-! ## The answer of the search -/

/-- The scopes that a graph holds. -/
def scopeSet (graph : ScopeGraph) : Finset ScopeId :=
  (Finset.range graph.size).image ScopeId.mk

theorem mem_scopeSet_iff (graph : ScopeGraph) (scope : ScopeId) :
    scope ∈ graph.scopeSet ↔ graph.holds scope = true := by
  rw [holds_iff, scopeSet, Finset.mem_image]
  constructor
  · rintro ⟨index, hindex, rfl⟩
    exact Finset.mem_range.mp hindex
  · intro hindex
    exact ⟨scope.index, Finset.mem_range.mpr hindex, rfl⟩

/-- The search over inheritance edges finds all paths. -/
theorem Grounded.mem_reach_iff {graph : ScopeGraph} (hgrounded : graph.Grounded)
    {source : ScopeId} (hsource : graph.holds source = true) (target : ScopeId) :
    target ∈ Closure.reach graph.inheritedScopes graph.size [source] ↔
      Closure.Leads graph.inheritedScopes source target := by
  have hclosed : ∀ scope ∈ graph.scopeSet, ∀ next ∈ graph.inheritedScopes scope,
      next ∈ graph.scopeSet := by
    intro scope _ next hnext
    rw [mem_scopeSet_iff]
    exact (hgrounded.edge_held _ (mem_inheritedScopes_iff.mp hnext)).2
  have hrounds : graph.scopeSet.card ≤ graph.size := by
    simpa [scopeSet] using Finset.card_image_le (s := Finset.range graph.size) (f := ScopeId.mk)
  exact Closure.mem_reach_iff hclosed hrounds ((graph.mem_scopeSet_iff source).mpr hsource) target

section Derives

variable {graph : ScopeGraph} (hbuilt : graph.Built)
include hbuilt

/-- One class derives from another exactly if it is reached through bases. -/
theorem derives_iff_bases (derived base : Fingerprint) :
    graph.derives derived base = true ↔ Relation.TransGen graph.HasBase derived base := by
  have hhierarchy := hbuilt.hierarchy
  have hinheritance := hbuilt.inheritance
  rw [derives, Bool.and_eq_true, bne_iff_ne]
  constructor
  · rintro ⟨hne, hsearch⟩
    cases hderived : graph.body? derived with
    | none => simp [hderived] at hsearch
    | some source =>
        cases hbase : graph.body? base with
        | none => simp [hderived, hbase] at hsearch
        | some target =>
            simp only [hderived, hbase, List.contains_iff_mem] at hsearch
            rw [hbuilt.grounded.mem_reach_iff (hbuilt.grounded.holds_body hderived)] at hsearch
            obtain ⟨found, hbases, hfound⟩ := bases_of_leads hinheritance hderived hsearch
            rw [type_eq_of_body? hhierarchy hinheritance hfound hbase] at hbases
            exact (Relation.reflTransGen_iff_eq_or_transGen.mp hbases).resolve_left (Ne.symm hne)
  · intro hbases
    obtain ⟨source, target, hsource, htarget, holder⟩ :=
      older_of_bases hhierarchy hinheritance hbases
    obtain ⟨found, hfound, hleads⟩ :=
      leads_of_bases hhierarchy hinheritance hbases.to_reflTransGen hsource
    rw [htarget] at hfound
    obtain rfl := Option.some.inj hfound
    refine ⟨?_, ?_⟩
    · rintro rfl
      rw [hsource] at htarget
      obtain rfl := Option.some.inj htarget
      exact Nat.lt_irrefl _ holder
    · simp only [hsource, htarget, List.contains_iff_mem]
      exact (hbuilt.grounded.mem_reach_iff (hbuilt.grounded.holds_body hsource) target).mpr hleads

theorem not_derives_of_derives {derived base : Fingerprint}
    (hderives : graph.derives derived base = true) : graph.derives base derived = false := by
  rw [derives_iff_bases hbuilt] at hderives
  rw [← Bool.not_eq_true, derives_iff_bases hbuilt]
  intro hback
  obtain ⟨source, target, hsource, htarget, holder⟩ :=
    older_of_bases hbuilt.hierarchy hbuilt.inheritance (hderives.trans hback)
  rw [hsource] at htarget
  obtain rfl := Option.some.inj htarget
  exact Nat.lt_irrefl _ holder

end Derives

/-- The scopes below the root form a tree in which every scope is younger than the scope
that contains it.  Classes and class scopes belong together one to one, inheritance edges
and recorded bases say the same, and deriving is the strict order that they generate. -/
theorem scopes_and_bases_consistent {graph : ScopeGraph} (hbuilt : graph.Built) :
    graph.containers ScopeId.root = [] ∧
    (∀ scope, graph.holds scope = true → scope ≠ ScopeId.root →
      ∃ edge, graph.containers scope = [edge] ∧ edge.source.index < scope.index) ∧
    (∀ edge ∈ graph.edges, edge.label = .inherits →
      (∃ type, graph.kind? edge.source = some (.classBody type)) ∧
        (∃ type, graph.kind? edge.target = some (.classBody type)) ∧
          edge.target.index < edge.source.index) ∧
    (graph.types.map (·.type)).Nodup ∧
    (∀ type scope, graph.body? type = some scope ↔
      graph.kind? scope = some (.classBody type)) ∧
    (∀ scope type, graph.kind? scope = some (.classBody type) →
      ∃ record, graph.registered? type = some record ∧
        (graph.inheritedScopes scope).reverse.map some = record.bases.map graph.body?) ∧
    (∀ type, graph.derives type type = false) ∧
    (∀ derived base, graph.derives derived base = true → graph.derives base derived = false) ∧
    (∀ derived middle base, graph.derives derived middle = true →
      graph.derives middle base = true → graph.derives derived base = true) ∧
    ∀ derived base, graph.derives derived base = true ↔
      Relation.TransGen graph.HasBase derived base := by
  have hhierarchy := hbuilt.hierarchy
  have hinheritance := hbuilt.inheritance
  refine ⟨hbuilt.forest.root_outermost, hbuilt.forest.contained_once, ?_,
    hinheritance.types_once, body?_eq_some_iff hhierarchy hinheritance, ?_, ?_, ?_, ?_,
    derives_iff_bases hbuilt⟩
  · intro edge hedge hlabel
    exact inherits_older hhierarchy hinheritance hedge hlabel
  · intro scope type hkind
    obtain ⟨record, hrecord, _⟩ :=
      Option.bind_eq_some_iff.mp (hhierarchy.class_body scope type hkind)
    exact ⟨record, hrecord, hinheritance.inherits_bases scope type record hkind hrecord⟩
  · intro type
    simp [derives]
  · intro derived base
    exact not_derives_of_derives hbuilt
  · intro derived middle base hfirst hsecond
    rw [derives_iff_bases hbuilt] at hfirst hsecond ⊢
    exact hfirst.trans hsecond

/-- A class in a block, a class nested in it that has it as its base twice, and a class
derived from the nested one.  Two more classes are refused: one has a registered name, the
other an unknown base. -/
def nestedClasses : ScopeGraph :=
  Command.runAll
    [.newBlock ScopeId.root,
      .newClass ⟨1⟩ "A" [],
      .newClass ⟨2⟩ "B" [Fingerprint.ofName "A", Fingerprint.ofName "A"],
      .newClass ScopeId.root "A" [],
      .newClass ScopeId.root "C" [Fingerprint.ofName "A::B"],
      .newClass ScopeId.root "D" [Fingerprint.ofName "E"]] withScalars

/-- The nested class is contained in its own base, and deriving goes through it. -/
theorem nestedClasses_consistent :
    nestedClasses.Built ∧ nestedClasses.size = 5 ∧
      nestedClasses.containers ⟨3⟩ = [⟨⟨2⟩, ⟨3⟩, .contains "B"⟩] ∧
      nestedClasses.inheritedScopes ⟨3⟩ = [⟨2⟩, ⟨2⟩] ∧
      Relation.TransGen nestedClasses.HasBase (Fingerprint.ofName "C") (Fingerprint.ofName "A") ∧
      nestedClasses.derives (Fingerprint.ofName "A") (Fingerprint.ofName "C") = false := by
  have hbuilt : nestedClasses.Built := ⟨_, Or.inr rfl⟩
  obtain ⟨_, _, _, _, _, _, _, hasymm, _, hclosure⟩ := scopes_and_bases_consistent hbuilt
  have hderives : nestedClasses.derives (Fingerprint.ofName "C") (Fingerprint.ofName "A") =
      true := by
    decide +kernel
  exact ⟨hbuilt, by decide +kernel, by decide +kernel, by decide +kernel,
    (hclosure _ _).mp hderives, hasymm _ _ hderives⟩

end ScopeGraph
end CallResolution
