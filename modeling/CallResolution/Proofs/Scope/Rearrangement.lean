import Mathlib.Data.List.Sort
import Mathlib.Data.Option.Basic
import Mathlib.Tactic
import CallResolution.Proofs.Scope.Walk

/-!
# Graphs that differ in order only

Two graphs are rearrangements of one another if they have the same scopes, types,
containment and inheritance, and if declarations, copies and pull-ins are the same up to
order.  Every question about scopes and types has the same answer in both, and every
look-up finds the same signatures, possibly in another order.

The index is left out: it takes no part in look-ups.
-/

namespace CallResolution

/-- The edge belongs to the tree of scopes or to the inheritance of classes. -/
def Edge.isLink (edge : Edge) : Bool :=
  match edge.label with
  | .pullsIn _ => false
  | _ => true

/-- The same contents up to order. -/
structure Scope.Rearranged (first second : Scope) : Prop where
  kind : first.kind = second.kind
  declared : first.declared.Perm second.declared
  associated : first.associated.Perm second.associated

namespace ScopeGraph

/-- The same graph up to the order of declarations, copies and pull-ins. -/
structure Rearranged (first second : ScopeGraph) : Prop where
  size : first.size = second.size
  contents : ∀ scope,
    Option.Rel Scope.Rearranged (first.contents? scope) (second.contents? scope)
  edges : first.edges.Perm second.edges
  links : first.edges.filter Edge.isLink = second.edges.filter Edge.isLink
  types : first.types = second.types

section Questions

variable {first second : ScopeGraph} (hsame : Rearranged first second)
include hsame

/-! ## Scopes and types -/

theorem Rearranged.holds_eq (scope : ScopeId) : first.holds scope = second.holds scope := by
  have hsize : first.scopes.length = second.scopes.length := hsame.size
  rw [holds, holds, hsize]

/-- A scope that one graph holds is held by the other, with the same contents up to order. -/
theorem Rearranged.contents_cases (scope : ScopeId) :
    (first.contents? scope = none ∧ second.contents? scope = none) ∨
      ∃ before after, first.contents? scope = some before ∧
        second.contents? scope = some after ∧ before.Rearranged after := by
  have hcontents := hsame.contents scope
  generalize first.contents? scope = before at hcontents ⊢
  generalize second.contents? scope = after at hcontents ⊢
  cases hcontents with
  | none => exact Or.inl ⟨rfl, rfl⟩
  | some hscope => exact Or.inr ⟨_, _, rfl, rfl, hscope⟩

theorem Rearranged.walkBound_eq : first.walkBound = second.walkBound := by
  rw [walkBound, walkBound, hsame.size]

theorem Rearranged.kind?_eq (scope : ScopeId) : first.kind? scope = second.kind? scope := by
  rw [kind?, kind?]
  rcases hsame.contents_cases scope with ⟨hfirst, hsecond⟩ | ⟨_, _, hfirst, hsecond, hscope⟩
  · rw [hfirst, hsecond]
  · rw [hfirst, hsecond, Option.map_some, Option.map_some, hscope.kind]

/-- A question that pull-ins have no part in is answered by the links. -/
theorem Rearranged.filterMap_eq {α : Type} {ask : Edge → Option α}
    (hask : ∀ edge, edge.isLink = false → ask edge = none) :
    first.edges.filterMap ask = second.edges.filterMap ask := by
  have hlinks : ∀ edges : List Edge,
      edges.filterMap ask = (edges.filter Edge.isLink).filterMap ask := by
    intro edges
    rw [List.filterMap_filter]
    congr 1
    funext edge
    cases hlink : edge.isLink with
    | true => simp
    | false => simp [hask edge hlink]
  rw [hlinks, hlinks second.edges, hsame.links]

theorem Rearranged.outer?_eq (scope : ScopeId) : first.outer? scope = second.outer? scope := by
  rw [outer?, outer?, ← List.head?_filterMap, ← List.head?_filterMap]
  congr 1
  apply hsame.filterMap_eq
  rintro ⟨source, target, label⟩ hlink
  cases label with
  | contains | inherits => simp [Edge.isLink] at hlink
  | pullsIn => rfl

theorem Rearranged.climb_eq (steps : Nat) (scope : ScopeId) :
    first.climb steps scope = second.climb steps scope := by
  induction steps generalizing scope with
  | zero => rfl
  | succ steps ih =>
      rw [climb, climb, hsame.outer?_eq]
      cases second.outer? scope with
      | none => rfl
      | some outer => simp only [ih]

theorem Rearranged.registered?_eq (type : Fingerprint) :
    first.registered? type = second.registered? type := by
  rw [registered?, registered?, hsame.types]

theorem Rearranged.body?_eq (type : Fingerprint) : first.body? type = second.body? type := by
  rw [body?, body?, hsame.registered?_eq]

theorem Rearranged.home?_eq (type : Fingerprint) : first.home? type = second.home? type := by
  rw [home?, home?, hsame.registered?_eq]

theorem Rearranged.directBases_eq (scope : ScopeId) :
    first.directBases scope = second.directBases scope := by
  have hbody : first.body? = second.body? := funext hsame.body?_eq
  unfold directBases
  simp only [hsame.kind?_eq, hsame.registered?_eq, hbody]

theorem Rearranged.inheritedScopes_eq (scope : ScopeId) :
    first.inheritedScopes scope = second.inheritedScopes scope := by
  apply hsame.filterMap_eq
  rintro ⟨source, target, label⟩ hlink
  cases label with
  | contains | inherits => simp [Edge.isLink] at hlink
  | pullsIn => simp

theorem Rearranged.derives_eq (derived base : Fingerprint) :
    first.derives derived base = second.derives derived base := by
  have hinherited : first.inheritedScopes = second.inheritedScopes :=
    funext hsame.inheritedScopes_eq
  rw [derives, derives, hsame.body?_eq, hsame.body?_eq, hinherited, hsame.size]

end Questions

/-! ## Pull-ins -/

/-- Ascending order, as a relation on scopes. -/
def Precedes (a b : ScopeId) : Prop :=
  a.index ≤ b.index

instance : DecidableRel Precedes :=
  fun a b => inferInstanceAs (Decidable (a.index ≤ b.index))

instance : Std.Total Precedes :=
  ⟨fun a b => Nat.le_total a.index b.index⟩

instance : IsTrans ScopeId Precedes :=
  ⟨fun _ _ _ => Nat.le_trans⟩

instance : Std.Antisymm Precedes :=
  ⟨fun _ _ hab hba => ScopeId.ext (Nat.le_antisymm hab hba)⟩

theorem insertAscending_eq_orderedInsert (scope : ScopeId) (list : List ScopeId) :
    insertAscending scope list = list.orderedInsert Precedes scope := by
  induction list with
  | nil => rfl
  | cons first rest ih =>
      rw [insertAscending, List.orderedInsert_cons, ih]
      rfl

/-- The order of pull-ins leaves no trace. -/
theorem Rearranged.pulledFrom_eq {first second : ScopeGraph} (hsame : Rearranged first second)
    (scope : ScopeId) (name : String) :
    first.pulledFrom scope name = second.pulledFrom scope name := by
  have hsorted : ∀ list : List ScopeId,
      list.foldr insertAscending [] = list.insertionSort Precedes := by
    intro list
    induction list with
    | nil => rfl
    | cons scope rest ih =>
        rw [List.foldr_cons, ih, insertAscending_eq_orderedInsert, List.insertionSort_cons]
  have hperm := hsame.edges.filterMap fun edge =>
    if edge.source = scope ∧ edge.label = .pullsIn name then some edge.target else none
  -- Both lists are sorted, so being permutations of one another makes them equal.
  rw [pulledFrom, pulledFrom, hsorted, hsorted]
  exact ((List.perm_insertionSort Precedes _).trans
    (hperm.trans (List.perm_insertionSort Precedes _).symm)).eq_of_pairwise'
      (List.pairwise_insertionSort Precedes _) (List.pairwise_insertionSort Precedes _)

/-! ## Declarations and walks -/

section Lookups

variable {first second : ScopeGraph} (hsame : Rearranged first second)
include hsame

theorem Rearranged.mem_declaredAs_iff (scope : ScopeId) (name : String) (signature : Signature) :
    signature ∈ first.declaredAs scope name ↔ signature ∈ second.declaredAs scope name := by
  unfold declaredAs
  rcases hsame.contents_cases scope with ⟨hfirst, hsecond⟩ | ⟨_, _, hfirst, hsecond, hscope⟩
  · rw [hfirst, hsecond]
  · simp only [hfirst, hsecond, List.mem_filter, hscope.declared.mem_iff]

theorem Rearranged.mem_associations_iff (scope : ScopeId) (name : String)
    (signature : Signature) :
    signature ∈ first.associations scope name ↔ signature ∈ second.associations scope name := by
  unfold associations
  rcases hsame.contents_cases scope with ⟨hfirst, hsecond⟩ | ⟨_, _, hfirst, hsecond, hscope⟩
  · rw [hfirst, hsecond]
  · simp only [hfirst, hsecond, List.mem_filter, hscope.associated.mem_iff]

/-- Walks that mark the same scopes find the same signatures. -/
theorem Rearranged.mem_found_iff {name : String} {before : List ScopeId} {walk other : Walk}
    (hwalk : Reports first name before walk) (hother : Reports second name before other)
    (hseen : walk.seen = other.seen) (signature : Signature) :
    signature ∈ walk.found ↔ signature ∈ other.found := by
  rw [hwalk.mem_iff, hother.mem_iff, hseen]
  simp only [hsame.mem_declaredAs_iff]

theorem Rearranged.perm_found {name : String} {before : List ScopeId} {walk other : Walk}
    (hwalk : Reports first name before walk) (hother : Reports second name before other)
    (hseen : walk.seen = other.seen) : walk.found.Perm other.found :=
  (List.perm_ext_iff_of_nodup hwalk.nodup.of_map hother.nodup.of_map).mpr
    (hsame.mem_found_iff hwalk hother hseen)

omit hsame in
theorem seen_visitEach_congr {visit other : ScopeId → List ScopeId → Walk}
    (hvisit : ∀ scope seen, (visit scope seen).seen = (other scope seen).seen)
    (targets : List ScopeId) (found more : List Signature) (seen : List ScopeId) :
    (visitEach visit targets ⟨found, seen⟩).seen =
      (visitEach other targets ⟨more, seen⟩).seen := by
  induction targets generalizing found more seen with
  | nil => rfl
  | cons target rest ih =>
      change (visitEach visit rest ⟨_, (visit target seen).seen⟩).seen =
        (visitEach other rest ⟨_, (other target seen).seen⟩).seen
      rw [hvisit]
      exact ih _ _ _

theorem Rearranged.seen_visitOwn_eq (name : String) {visit other : ScopeId → List ScopeId → Walk}
    (hvisit : ∀ scope seen, (visit scope seen).seen = (other scope seen).seen)
    (scope : ScopeId) (seen : List ScopeId) :
    (first.visitOwn name visit scope seen).seen =
      (second.visitOwn name other scope seen).seen := by
  unfold visitOwn
  rw [hsame.pulledFrom_eq]
  split
  · rfl
  · exact seen_visitEach_congr hvisit _ _ _ _

variable {accepts : Signature → Prop} (hfirst : StoredOnce accepts first)
  (hsecond : StoredOnce accepts second)
include hfirst hsecond

/-- A walk marks the same scopes in the same order. -/
theorem Rearranged.seen_visit_eq (name : String) (depth : Nat) (scope : ScopeId)
    (seen : List ScopeId) :
    (first.visit name depth scope seen).seen = (second.visit name depth scope seen).seen := by
  induction depth generalizing scope seen with
  | zero => rfl
  | succ depth ih =>
      have hseen := hsame.seen_visitOwn_eq name ih scope seen
      have hfound := hsame.perm_found
        (hfirst.reports_visitAlone name depth scope seen)
        (hsecond.reports_visitAlone name depth scope seen) hseen
      -- Both walks have found something or neither has, so both ask the bases or neither does.
      rw [visit_succ, visit_succ, visitBy, visitBy, hfound.isEmpty_eq, hsame.directBases_eq, hseen]
      split
      · exact seen_visitEach_congr ih _ _ _ _
      · exact hseen

/-- A scope offers the same signatures. -/
theorem Rearranged.perm_offered (name : String) (scope : ScopeId) :
    (first.offered name scope).Perm (second.offered name scope) := by
  unfold offered
  rw [← hsame.walkBound_eq]
  exact hsame.perm_found (hfirst.reports_visit name _ scope [])
    (hsecond.reports_visit name _ scope []) (hsame.seen_visit_eq hfirst hsecond name _ scope [])

/-- A namespace offers the same signatures to argument-dependent look-up. -/
theorem Rearranged.perm_lookupInSpace (space : ScopeId) (name : String) :
    (first.lookupInSpace space name).Perm (second.lookupInSpace space name) := by
  have hown : (first.offeredAlone name space).Perm (second.offeredAlone name space) := by
    unfold offeredAlone
    rw [← hsame.walkBound_eq]
    exact hsame.perm_found (hfirst.reports_visitAlone name _ space [])
      (hsecond.reports_visitAlone name _ space [])
      (hsame.seen_visitOwn_eq name (hsame.seen_visit_eq hfirst hsecond name first.walkBound)
        space [])
  have hnodup : ((first.offeredAlone name space).map (·.fingerprint)).Nodup :=
    (hfirst.reports_visitAlone name _ space []).nodup
  have hinjective : KeyedSet.KeyInjective (·.fingerprint) (first.associations space name) :=
    hfirst.keyInjective fun _ hmem => hfirst.mem_stored_of_associations hmem
  exact KeyedSet.insertAll_perm hown hnodup hinjective (hsame.mem_associations_iff space name)

/-- What two look-ups found: in the same scope the same signatures up to order. -/
abbrev SameSets : Option (ScopeId × List Signature) → Option (ScopeId × List Signature) → Prop :=
  Option.Rel fun found other => found.1 = other.1 ∧ found.2.Perm other.2

omit hfirst hsecond in
theorem Rearranged.firstOffer_sameSets {offer other : ScopeId → List Signature}
    (hoffer : ∀ scope, (offer scope).Perm (other scope)) (start : ScopeId) :
    SameSets (first.firstOffer offer start) (second.firstOffer other start) := by
  rw [firstOffer, firstOffer, enclosing, enclosing, hsame.climb_eq]
  induction second.climb start.index start with
  | nil => exact .none
  | cons scope rest ih =>
      have hscope := hoffer scope
      rw [List.findSome?_cons, List.findSome?_cons]
      generalize offer scope = found at hscope ⊢
      generalize other scope = set at hscope ⊢
      cases found with
      | nil =>
          rw [hscope.nil_eq.symm]
          exact ih
      | cons signature found =>
          cases set with
          | nil => exact absurd hscope.eq_nil (List.cons_ne_nil signature found)
          | cons head tail => exact .some ⟨rfl, hscope⟩

theorem Rearranged.lookup_sameSets (name : String) (start : ScopeId) :
    SameSets (first.lookup name start) (second.lookup name start) :=
  hsame.firstOffer_sameSets (hsame.perm_offered hfirst hsecond name) start

theorem Rearranged.lookupFree_sameSets (name : String) (start : ScopeId) :
    SameSets (first.lookupFree name start) (second.lookupFree name start) :=
  hsame.firstOffer_sameSets
    (fun scope => (hsame.perm_offered hfirst hsecond name scope).filter _) start

theorem Rearranged.perm_lookupInClass (type : Fingerprint) (name : String) :
    (first.lookupInClass type name).Perm (second.lookupInClass type name) := by
  unfold lookupInClass
  rw [hsame.body?_eq]
  cases second.body? type with
  | none => exact .refl _
  | some scope => exact hsame.perm_offered hfirst hsecond name scope

end Lookups

end ScopeGraph
end CallResolution
