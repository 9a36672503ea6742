import Mathlib.Tactic
import CallResolution.Proofs.Scope.Exhaustion
import CallResolution.Proofs.Scope.Frame

/-!
# Leaving declarations out

A look-up may be interested in some declarations only, say in those that are not members.
There are two ways to go about it: to look up all declarations and to filter what comes
out, or to look up in the graph with the other declarations left out.  They differ.  A class
whose own declarations are all filtered out has hidden its bases by then, but hides nothing
in the graph in which it declares nothing.

The two ways agree, step by step, where no such class is met; and from such a class itself
the first way finds nothing, while the second finds something.
-/

namespace CallResolution
namespace ScopeGraph

/-- The graph with all declarations left out that are not to be kept.  The index stays as
it is; no look-up reads it. -/
def keeping (graph : ScopeGraph) (keep : Signature → Bool) : ScopeGraph :=
  { graph with
    scopes := graph.scopes.map fun contents =>
      { contents with
        declared := contents.declared.filter keep
        associated := contents.associated.filter keep } }

section Skeleton

variable (graph : ScopeGraph) (keep : Signature → Bool)

@[simp]
theorem size_keeping : (graph.keeping keep).size = graph.size := by
  simp [size, keeping]

theorem contents?_keeping (scope : ScopeId) :
    (graph.keeping keep).contents? scope =
      (graph.contents? scope).map fun contents =>
        { contents with
          declared := contents.declared.filter keep
          associated := contents.associated.filter keep } := by
  simp [contents?, keeping]

@[simp]
theorem kind?_keeping (scope : ScopeId) :
    (graph.keeping keep).kind? scope = graph.kind? scope := by
  simp [kind?, contents?_keeping, Function.comp_def]

theorem sameFrame_keeping : SameFrame (graph.keeping keep) graph where
  size := graph.size_keeping keep
  kind := graph.kind?_keeping keep
  edges := rfl
  types := rfl

@[simp]
theorem body?_keeping (type : Fingerprint) :
    (graph.keeping keep).body? type = graph.body? type := rfl

@[simp]
theorem pulledFrom_keeping (scope : ScopeId) (name : String) :
    (graph.keeping keep).pulledFrom scope name = graph.pulledFrom scope name := rfl

@[simp]
theorem directBases_keeping (scope : ScopeId) :
    (graph.keeping keep).directBases scope = graph.directBases scope :=
  (graph.sameFrame_keeping keep).directBases_eq scope

@[simp]
theorem declaredAs_keeping (scope : ScopeId) (name : String) :
    (graph.keeping keep).declaredAs scope name = (graph.declaredAs scope name).filter keep := by
  rw [declaredAs, contents?_keeping, declaredAs]
  cases graph.contents? scope with
  | none => rfl
  | some contents => simp [List.filter_filter, Bool.and_comm]

@[simp]
theorem walkBound_keeping : (graph.keeping keep).walkBound = graph.walkBound :=
  (graph.sameFrame_keeping keep).walkBound_eq

theorem reaches_keeping (name : String) :
    (graph.keeping keep).Reaches name = graph.Reaches name :=
  (graph.sameFrame_keeping keep).reaches_eq name

theorem withinReach_keeping_iff {name : String} {scope : ScopeId} {signature : Signature} :
    (graph.keeping keep).WithinReach name scope signature ↔
      graph.WithinReach name scope signature ∧ keep signature = true := by
  simp only [WithinReach, reaches_keeping, declaredAs_keeping, List.mem_filter]
  constructor
  · rintro ⟨lower, hreach, hdeclared, hkeep⟩
    exact ⟨⟨lower, hreach, hdeclared⟩, hkeep⟩
  · rintro ⟨⟨lower, hreach, hdeclared⟩, hkeep⟩
    exact ⟨lower, hreach, hdeclared, hkeep⟩

variable {graph}

theorem Grounded.keeping (hgrounded : graph.Grounded) : (graph.keeping keep).Grounded := by
  have hheld := (graph.sameFrame_keeping keep).holds_eq
  refine ⟨?_, ?_, ?_⟩
  · rw [size_keeping]
    exact hgrounded.size_pos
  · intro edge hedge
    rw [hheld, hheld]
    exact hgrounded.edge_held edge hedge
  · intro record hrecord body hbody
    rw [hheld]
    exact hgrounded.body_held record hrecord body hbody

theorem Hierarchy.keeping (hhierarchy : graph.Hierarchy) : (graph.keeping keep).Hierarchy where
  class_body scope type hkind := by
    rw [kind?_keeping] at hkind
    exact hhierarchy.class_body scope type hkind
  bases_older := hhierarchy.bases_older

end Skeleton

/-! ## Where the two ways may part -/

/-- Something that is kept is within reach. -/
def Supplies (graph : ScopeGraph) (keep : Signature → Bool) (name : String) (scope : ScopeId) :
    Prop :=
  ∃ signature, graph.WithinReach name scope signature ∧ keep signature = true

/-- Without its bases the class offers something, but nothing that is kept; a base could
supply it. -/
structure Masks (graph : ScopeGraph) (keep : Signature → Bool) (name : String)
    (scope : ScopeId) : Prop where
  offers : graph.offeredAlone name scope ≠ []
  drops : ∀ signature ∈ graph.offeredAlone name scope, keep signature = false
  base_supplies : ∃ base ∈ graph.directBases scope, graph.Supplies keep name base

/-- The class declares nothing that is kept; it declares something that is not, or pulls in
from where such a thing is within reach; and a base could supply something that is kept. -/
structure MayMask (graph : ScopeGraph) (keep : Signature → Bool) (name : String)
    (scope : ScopeId) : Prop where
  drops : ∀ signature ∈ graph.declaredAs scope name, keep signature = false
  offers : graph.declaredAs scope name ≠ [] ∨
    ∃ target ∈ graph.pulledFrom scope name, graph.Supplies (!keep ·) name target
  base_supplies : ∃ base ∈ graph.directBases scope, graph.Supplies keep name base

/-- No class that may mask a base is within reach. -/
def Unmasked (graph : ScopeGraph) (keep : Signature → Bool) (name : String) (scope : ScopeId) :
    Prop :=
  ∀ lower, graph.Reaches name scope lower → ¬ graph.MayMask keep name lower

section Supply

variable {graph : ScopeGraph} {keep : Signature → Bool} {name : String} {upper lower : ScopeId}

theorem Supplies.of_reaches (hreach : graph.Reaches name upper lower)
    (hsupplies : graph.Supplies keep name lower) : graph.Supplies keep name upper := by
  obtain ⟨signature, hwithin, hkeep⟩ := hsupplies
  exact ⟨signature, hwithin.of_reaches hreach, hkeep⟩

theorem Supplies.of_keeping {signature : Signature}
    (hwithin : (graph.keeping keep).WithinReach name lower signature) :
    graph.Supplies keep name lower :=
  ⟨signature, (graph.withinReach_keeping_iff keep).mp hwithin⟩

theorem Unmasked.of_reaches (hreach : graph.Reaches name upper lower)
    (hunmasked : graph.Unmasked keep name upper) : graph.Unmasked keep name lower :=
  fun other hother => hunmasked other (hreach.trans hother)

theorem offeredAlone_of_no_pulls (hpulled : graph.pulledFrom lower name = []) :
    graph.offeredAlone name lower = graph.declaredAs lower name := by
  simp [offeredAlone, visitOwn, hpulled, visitEach]

/-- A class that pulls nothing in masks its bases if it may. -/
theorem MayMask.masks (hmay : graph.MayMask keep name lower)
    (hpulled : graph.pulledFrom lower name = []) : graph.Masks keep name lower where
  offers := by
    rw [offeredAlone_of_no_pulls hpulled]
    rcases hmay.offers with hdeclares | ⟨target, htarget, _⟩
    · exact hdeclares
    · rw [hpulled] at htarget
      cases htarget
  drops := by
    rw [offeredAlone_of_no_pulls hpulled]
    exact hmay.drops
  base_supplies := hmay.base_supplies

/-- Only the scopes that the graph holds need a look. -/
theorem not_masks_of_scopes
    (hscopes : ∀ index < graph.size, graph.offeredAlone name ⟨index⟩ = [] ∨
      ∃ signature ∈ graph.offeredAlone name ⟨index⟩, keep signature = true) (scope : ScopeId) :
    ¬ graph.Masks keep name scope := by
  intro hmasks
  obtain ⟨base, hbase, _⟩ := hmasks.base_supplies
  have hheld := (graph.holds_iff scope).mp (holds_of_directBases hbase)
  rcases hscopes scope.index hheld with hnothing | ⟨signature, hmem, hkeep⟩
  · exact hmasks.offers hnothing
  · rw [hmasks.drops signature hmem] at hkeep
    cases hkeep

end Supply

/-! ## Side by side -/

section Lockstep

variable (graph : ScopeGraph) (keep : Signature → Bool) (name : String)

/-- The same scopes are marked among those that could supply something that is kept. -/
def Agree (seen marks : List ScopeId) : Prop :=
  ∀ scope, graph.Supplies keep name scope → (scope ∈ marks ↔ scope ∈ seen)

/-- The second walk has found what is kept of the first. -/
structure Matches (walk kept : Walk) : Prop where
  found : kept.found = walk.found.filter keep
  seen : Agree graph keep name walk.seen kept.seen
  stored : walk.found ⊆ graph.stored

variable {graph keep name} {seen marks more others : List ScopeId}

/-- Marking scopes that supply nothing keeps agreement. -/
theorem Agree.grow (hagree : Agree graph keep name seen marks) (hseen : seen ⊆ more)
    (hmarks : marks ⊆ others)
    (hmore : ∀ scope ∈ more, scope ∈ seen ∨ ¬ graph.Supplies keep name scope)
    (hothers : ∀ scope ∈ others, scope ∈ marks ∨ ¬ graph.Supplies keep name scope) :
    Agree graph keep name more others := by
  intro scope hsupplies
  have hold := hagree scope hsupplies
  constructor
  · intro hmem
    exact hseen (hold.mp ((hothers scope hmem).resolve_right (not_not.mpr hsupplies)))
  · intro hmem
    exact hmarks (hold.mpr ((hmore scope hmem).resolve_right (not_not.mpr hsupplies)))

variable {accepts : Signature → Prop} (hstored : StoredOnce accepts graph)
include hstored

theorem Matches.merge {walk kept first second : Walk}
    (hwalk : Matches graph keep name walk kept) (hnew : Matches graph keep name first second) :
    Matches graph keep name ⟨mergeUnique walk.found first.found, first.seen⟩
      ⟨mergeUnique kept.found second.found, second.seen⟩ where
  found := by
    have hinjective := hstored.keyInjective (List.append_subset.mpr ⟨hwalk.stored, hnew.stored⟩)
    rw [hwalk.found, hnew.found]
    exact (KeyedSet.filter_insertAll keep hinjective).symm
  seen := hnew.seen
  stored := by
    intro signature hmem
    rcases KeyedSet.mem_or_mem_of_mem_insertAll hmem with hmem | hmem
    · exact hwalk.stored hmem
    · exact hnew.stored hmem

theorem matches_visitEach {visit visitKept : ScopeId → List ScopeId → Walk}
    {targets : List ScopeId}
    (hvisit : ∀ target ∈ targets, ∀ seen marks, Agree graph keep name seen marks →
      Matches graph keep name (visit target seen) (visitKept target marks))
    {walk kept : Walk} (hwalk : Matches graph keep name walk kept) :
    Matches graph keep name (visitEach visit targets walk) (visitEach visitKept targets kept) := by
  induction targets generalizing walk kept with
  | nil => exact hwalk
  | cons target rest ih =>
      refine ih (fun next hnext => hvisit next (List.mem_cons_of_mem target hnext)) ?_
      exact hwalk.merge hstored
        (hvisit target List.mem_cons_self walk.seen kept.seen hwalk.seen)

variable {depth : Nat} {scope : ScopeId}

omit hstored in
/-- From a scope that supplies nothing both walks bring nothing that is kept. -/
theorem matches_of_not_supplies (hbarren : ¬ graph.Supplies keep name scope)
    (hagree : Agree graph keep name seen marks) :
    Matches graph keep name (graph.visit name depth scope seen)
      ((graph.keeping keep).visit name depth scope marks) where
  found := by
    have hdropped : ∀ signature ∈ (graph.visit name depth scope seen).found,
        ¬ keep signature = true := fun signature hmem hkeep =>
      hbarren ⟨signature, graph.withinReach_of_mem_visit name depth scope seen _ hmem, hkeep⟩
    rw [List.filter_eq_nil_iff.mpr hdropped, List.eq_nil_iff_forall_not_mem]
    intro signature hmem
    exact hbarren (.of_keeping (withinReach_of_mem_visit _ name depth scope marks _ hmem))
  seen := by
    have hreached : ∀ other, graph.Reaches name scope other → ¬ graph.Supplies keep name other :=
      fun other hreach hsupplies => hbarren (hsupplies.of_reaches hreach)
    refine hagree.grow (subset_visit ..) (subset_visit ..) ?_ ?_
    · intro other hmem
      exact (reaches_of_mem_visit _ name depth scope seen other hmem).imp_right (hreached other)
    · intro other hmem
      have hnew := reaches_of_mem_visit _ name depth scope marks other hmem
      rw [reaches_keeping] at hnew
      exact hnew.imp_right (hreached other)
  stored signature hmem := (graph.withinReach_of_mem_visit name depth scope seen _ hmem).mem_stored

omit hstored in
/-- Where without the bases something was found, but nothing that is kept, the bases of an
unmasked scope supply nothing. -/
theorem not_supplies_of_dropped (hunmasked : graph.Unmasked keep name scope)
    (hfound : (graph.visitOwn name (graph.visit name depth) scope seen).found ≠ [])
    (hdropped : ∀ signature ∈ (graph.visitOwn name (graph.visit name depth) scope seen).found,
      keep signature = false) :
    ∀ base ∈ graph.directBases scope, ¬ graph.Supplies keep name base := by
  intro base hbase hsupplies
  have hunseen : scope ∉ seen := by
    intro hseen
    rw [visitOwn, if_pos hseen] at hfound
    exact hfound rfl
  -- With such a base the scope itself would be one that may mask.
  refine hunmasked scope .refl ⟨?_, ?_, base, hbase, hsupplies⟩
  · intro signature hdeclared
    apply hdropped
    rw [visitOwn, if_neg hunseen]
    exact found_subset_visitEach _ _ _ hdeclared
  · obtain ⟨signature, hmem⟩ := List.exists_mem_of_ne_nil _ hfound
    rcases withinReach_of_mem_visitOwn (graph.withinReach_of_mem_visit name depth) hmem with
      hdeclared | ⟨target, htarget, hwithin⟩
    · exact Or.inl (List.ne_nil_of_mem hdeclared)
    · exact Or.inr ⟨target, htarget, signature, hwithin, by simp [hdropped signature hmem]⟩

omit hstored in
/-- Going on to scopes that supply nothing changes nothing, on the graph with declarations
left out. -/
theorem matches_visitEach_barren {walk kept : Walk} {targets : List ScopeId}
    (hbarren : ∀ target ∈ targets, ¬ graph.Supplies keep name target)
    (hwalk : Matches graph keep name walk kept) (hnothing : kept.found = []) :
    Matches graph keep name walk
      (visitEach ((graph.keeping keep).visit name depth) targets ⟨[], kept.seen⟩) where
  found := by
    rw [← hwalk.found, hnothing, List.eq_nil_iff_forall_not_mem]
    intro signature hmem
    rcases withinReach_of_mem_visitEach (withinReach_of_mem_visit _ name depth) hmem with
      hold | ⟨target, htarget, hwithin⟩
    · cases hold
    · exact hbarren target htarget (.of_keeping hwithin)
  seen := by
    refine hwalk.seen.grow (List.Subset.refl _)
      (subset_visitEach (subset_visit _ name depth) targets [] kept.seen)
      (fun _ => Or.inl) ?_
    intro other hmem
    rcases reaches_of_mem_visitEach (reaches_of_mem_visit _ name depth) hmem with
      hold | ⟨target, htarget, hreach⟩
    · exact Or.inl hold
    · rw [reaches_keeping] at hreach
      exact Or.inr fun hsupplies => hbarren target htarget (hsupplies.of_reaches hreach)
  stored := hwalk.stored

section Step

variable (hvisit : ∀ scope seen marks, graph.Unmasked keep name scope →
    Agree graph keep name seen marks →
      Matches graph keep name (graph.visit name depth scope seen)
        ((graph.keeping keep).visit name depth scope marks))
  (hunmasked : graph.Unmasked keep name scope) (hsupplies : graph.Supplies keep name scope)
  (hagree : Agree graph keep name seen marks)
include hvisit hunmasked hsupplies hagree

theorem matches_visitOwn :
    Matches graph keep name (graph.visitOwn name (graph.visit name depth) scope seen)
      ((graph.keeping keep).visitOwn name ((graph.keeping keep).visit name depth) scope
        marks) := by
  unfold visitOwn
  -- The scope could supply something, so the walks agree whether it is marked.
  by_cases hseen : scope ∈ seen
  · rw [if_pos hseen, if_pos ((hagree scope hsupplies).mpr hseen)]
    exact ⟨rfl, hagree, List.nil_subset _⟩
  · rw [if_neg hseen, if_neg fun hmarked => hseen ((hagree scope hsupplies).mp hmarked)]
    refine matches_visitEach hstored ?_ ⟨graph.declaredAs_keeping keep scope name, ?_, ?_⟩
    · intro target htarget seen marks
      exact hvisit target seen marks (hunmasked.of_reaches (.single (Or.inl htarget)))
    · intro other hother
      simp [hagree other hother]
    · exact fun signature => mem_stored_of_declaredAs

theorem matches_visitBy :
    Matches graph keep name (graph.visitBy name (graph.visit name depth) scope seen)
      ((graph.keeping keep).visitBy name ((graph.keeping keep).visit name depth) scope
        marks) := by
  have hown := matches_visitOwn hstored hvisit hunmasked hsupplies hagree
  unfold visitBy
  rw [directBases_keeping]
  by_cases hfound : (graph.visitOwn name (graph.visit name depth) scope seen).found = []
  · -- Neither walk found anything, and both go on to the bases.
    have hkept := hown.found
    rw [hfound, List.filter_nil] at hkept
    rw [if_pos (List.isEmpty_iff.mpr hfound), if_pos (List.isEmpty_iff.mpr hkept)]
    refine matches_visitEach hstored ?_ ⟨rfl, hown.seen, List.nil_subset _⟩
    intro base hbase seen marks
    exact hvisit base seen marks (hunmasked.of_reaches (.single (Or.inr hbase)))
  · rw [if_neg (by simpa using hfound)]
    split
    · -- Only the walk that leaves declarations out goes on, and it does so in vain.
      rename_i hkept
      rw [List.isEmpty_iff] at hkept
      refine matches_visitEach_barren ?_ hown hkept
      refine not_supplies_of_dropped hunmasked hfound fun signature hmem => ?_
      rw [hown.found, List.filter_eq_nil_iff] at hkept
      simpa using hkept signature hmem
    · exact hown

end Step

theorem matches_visit (depth : Nat) (scope : ScopeId) (seen marks : List ScopeId)
    (hunmasked : graph.Unmasked keep name scope) (hagree : Agree graph keep name seen marks) :
    Matches graph keep name (graph.visit name depth scope seen)
      ((graph.keeping keep).visit name depth scope marks) := by
  induction depth generalizing scope seen marks with
  | zero => exact ⟨rfl, hagree, List.nil_subset _⟩
  | succ depth ih =>
      by_cases hsupplies : graph.Supplies keep name scope
      · exact matches_visitBy hstored ih hunmasked hsupplies hagree
      · exact matches_of_not_supplies hsupplies hagree

end Lockstep

/-! ## What look-ups find -/

section Offered

variable {graph : ScopeGraph} {keep : Signature → Bool} {name : String} {scope : ScopeId}
  (hbuilt : graph.Built)
include hbuilt

theorem filter_offered_of_unmasked (hunmasked : graph.Unmasked keep name scope) :
    (graph.offered name scope).filter keep = (graph.keeping keep).offered name scope := by
  have hmatches := matches_visit hbuilt.storedOnce graph.walkBound scope [] [] hunmasked
    fun _ _ => Iff.rfl
  rw [offered, offered, walkBound_keeping]
  exact hmatches.found.symm

theorem offered_keeping_eq_nil_iff :
    (graph.keeping keep).offered name scope = [] ↔ ¬ graph.Supplies keep name scope := by
  rw [offered_eq_nil_iff (hbuilt.grounded.keeping keep) (hbuilt.hierarchy.keeping keep)]
  simp [withinReach_keeping_iff, Supplies]

/-- A scope that offers something without its bases offers just that. -/
theorem offered_of_offeredAlone (halone : graph.offeredAlone name scope ≠ []) :
    graph.offered name scope = graph.offeredAlone name scope := by
  rw [offered, visit_walkBound hbuilt.grounded hbuilt.hierarchy, visitBy,
    if_neg (by simpa [offeredAlone] using halone), offeredAlone]

/-- From a class that masks its bases the two ways find nothing and something. -/
theorem Masks.parts (hmasks : graph.Masks keep name scope) :
    (graph.offered name scope).filter keep = [] ∧
      (graph.keeping keep).offered name scope ≠ [] := by
  constructor
  · rw [offered_of_offeredAlone hbuilt hmasks.offers, List.filter_eq_nil_iff]
    intro signature hmem
    simp [hmasks.drops signature hmem]
  · obtain ⟨base, hbase, hsupplies⟩ := hmasks.base_supplies
    rw [Ne, offered_keeping_eq_nil_iff hbuilt, not_not]
    exact hsupplies.of_reaches (.single (Or.inr hbase))

end Offered

end ScopeGraph
end CallResolution
