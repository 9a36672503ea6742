import Mathlib.Data.Finset.Card
import Mathlib.Logic.Relation
import Mathlib.Tactic
import CallResolution.Proofs.Scope.Hierarchy
import CallResolution.Proofs.Scope.Storage
import CallResolution.Scope.Lookup

/-!
# What a walk finds

A walk that starts with some scopes marked returns exactly the declarations of the scopes
that it marks itself, each once, and marks only scopes that pull-ins and bases lead to.
This holds at every depth.  The depth matters for where the walk stops: at `walkBound` the
walk of a graph built by commands satisfies its own recursion without a bound.

Nothing here says that a marked scope ought to be visible; hiding is a matter of its own.
-/

namespace CallResolution
namespace ScopeGraph

/-- One visit, in terms of how the visits that it leads to are carried out. -/
def visitBy (graph : ScopeGraph) (name : String) (visit : ScopeId → List ScopeId → Walk)
    (scope : ScopeId) (seen : List ScopeId) : Walk :=
  if (graph.visitOwn name visit scope seen).found.isEmpty then
    visitEach visit (graph.directBases scope) ⟨[], (graph.visitOwn name visit scope seen).seen⟩
  else
    graph.visitOwn name visit scope seen

theorem visit_succ (graph : ScopeGraph) (name : String) (depth : Nat) :
    graph.visit name (depth + 1) = graph.visitBy name (graph.visit name depth) := rfl

theorem mergeUnique_eq_insertAll (set more : List Signature) :
    mergeUnique set more = KeyedSet.insertAll (·.fingerprint) set more := rfl

/-- What visiting one scope after the other keeps. -/
theorem visitEach_induct {motive : Walk → Prop} {visit : ScopeId → List ScopeId → Walk}
    {targets : List ScopeId} {walk : Walk} (hstart : motive walk)
    (hstep : ∀ walk, motive walk → ∀ target ∈ targets,
      motive ⟨mergeUnique walk.found (visit target walk.seen).found,
        (visit target walk.seen).seen⟩) :
    motive (visitEach visit targets walk) := by
  induction targets generalizing walk with
  | nil => exact hstart
  | cons target rest ih =>
      apply ih (hstep walk hstart target List.mem_cons_self)
      intro walk hwalk other hother
      exact hstep walk hwalk other (List.mem_cons_of_mem target hother)

/-! ## Marks are never removed -/

section Marks

variable (graph : ScopeGraph) (name : String) {visit : ScopeId → List ScopeId → Walk}
  (hvisit : ∀ scope seen, seen ⊆ (visit scope seen).seen)
include hvisit

omit graph name in
theorem subset_visitEach (targets : List ScopeId) (found : List Signature)
    (seen : List ScopeId) : seen ⊆ (visitEach visit targets ⟨found, seen⟩).seen := by
  refine visitEach_induct (motive := fun inner => seen ⊆ inner.seen) (List.Subset.refl _) ?_
  intro inner hinner target _
  exact List.Subset.trans hinner (hvisit target inner.seen)

theorem subset_visitOwn (scope : ScopeId) (seen : List ScopeId) :
    seen ⊆ (graph.visitOwn name visit scope seen).seen := by
  unfold visitOwn
  split
  · exact List.Subset.refl _
  · exact List.Subset.trans (List.subset_cons_self scope seen) (subset_visitEach hvisit _ _ _)

theorem subset_visitBy (scope : ScopeId) (seen : List ScopeId) :
    seen ⊆ (graph.visitBy name visit scope seen).seen := by
  have hown := subset_visitOwn graph name hvisit scope seen
  unfold visitBy
  split
  · exact List.Subset.trans hown (subset_visitEach hvisit _ _ _)
  · exact hown

end Marks

theorem subset_visit (graph : ScopeGraph) (name : String) (depth : Nat) (scope : ScopeId)
    (seen : List ScopeId) : seen ⊆ (graph.visit name depth scope seen).seen := by
  induction depth generalizing scope seen with
  | zero => exact List.Subset.refl seen
  | succ depth ih => exact subset_visitBy graph name ih scope seen

/-! ## Declarations of the newly marked scopes -/

/-- The walk has found, each once, the declarations of the scopes that it marked beyond
those in `before`. -/
structure Reports (graph : ScopeGraph) (name : String) (before : List ScopeId) (walk : Walk) :
    Prop where
  nodup : (walk.found.map (·.fingerprint)).Nodup
  mem_iff : ∀ signature, signature ∈ walk.found ↔
    ∃ scope ∈ walk.seen, scope ∉ before ∧ signature ∈ graph.declaredAs scope name

section Reports

variable {graph : ScopeGraph} {name : String} {before middle : List ScopeId}

theorem reports_nothing (graph : ScopeGraph) (name : String) (seen : List ScopeId) :
    Reports graph name seen ⟨[], seen⟩ where
  nodup := List.nodup_nil
  mem_iff signature := by
    constructor
    · intro hmem
      cases hmem
    · rintro ⟨scope, hseen, hnew, _⟩
      exact absurd hseen hnew

theorem Reports.mem_stored {walk : Walk} (hreports : Reports graph name before walk)
    {signature : Signature} (hmem : signature ∈ walk.found) : signature ∈ graph.stored := by
  obtain ⟨scope, _, _, hdeclared⟩ := (hreports.mem_iff signature).mp hmem
  exact mem_stored_of_declaredAs hdeclared

/-- Two walks, of which the second starts with the marks of the first, make one. -/
theorem Reports.trans {first second : Walk} {found : List Signature}
    (hfirst : Reports graph name before first) (hbefore : before ⊆ first.seen)
    (hsecond : Reports graph name first.seen second) (hmiddle : first.seen ⊆ second.seen)
    (hnodup : (found.map (·.fingerprint)).Nodup)
    (hfound : ∀ signature, signature ∈ found ↔ signature ∈ first.found ∨ signature ∈ second.found) :
    Reports graph name before ⟨found, second.seen⟩ where
  nodup := hnodup
  mem_iff signature := by
    rw [hfound, hfirst.mem_iff, hsecond.mem_iff]
    constructor
    · rintro (⟨scope, hseen, hnew, hdeclared⟩ | ⟨scope, hseen, hnew, hdeclared⟩)
      · exact ⟨scope, hmiddle hseen, hnew, hdeclared⟩
      · exact ⟨scope, hseen, fun hold => hnew (hbefore hold), hdeclared⟩
    · rintro ⟨scope, hseen, hnew, hdeclared⟩
      by_cases hmarked : scope ∈ first.seen
      · exact Or.inl ⟨scope, hmarked, hnew, hdeclared⟩
      · exact Or.inr ⟨scope, hseen, hmarked, hdeclared⟩

variable {accepts : Signature → Prop} (hstored : StoredOnce accepts graph)
include hstored

theorem Reports.merge {first second : Walk} (hfirst : Reports graph name before first)
    (hbefore : before ⊆ first.seen) (hsecond : Reports graph name first.seen second)
    (hmiddle : first.seen ⊆ second.seen) :
    Reports graph name before ⟨mergeUnique first.found second.found, second.seen⟩ := by
  refine hfirst.trans hbefore hsecond hmiddle (KeyedSet.nodup_insertAll hfirst.nodup _) ?_
  apply KeyedSet.mem_insertAll_iff_mem_or
  refine hstored.keyInjective ?_
  intro signature hmem
  rcases List.mem_append.mp hmem with hmem | hmem
  · exact hfirst.mem_stored hmem
  · exact hsecond.mem_stored hmem

variable {visit : ScopeId → List ScopeId → Walk}
  (hgrows : ∀ scope seen, seen ⊆ (visit scope seen).seen)
  (hvisit : ∀ scope seen, Reports graph name seen (visit scope seen))
include hgrows hvisit

theorem reports_visitEach {walk : Walk} (hwalk : Reports graph name before walk)
    (hbefore : before ⊆ walk.seen) (targets : List ScopeId) :
    Reports graph name before (visitEach visit targets walk) := by
  suffices hboth : Reports graph name before (visitEach visit targets walk) ∧
      before ⊆ (visitEach visit targets walk).seen from hboth.1
  refine visitEach_induct
    (motive := fun inner => Reports graph name before inner ∧ before ⊆ inner.seen)
    ⟨hwalk, hbefore⟩ ?_
  rintro inner ⟨hinner, hmarks⟩ target _
  refine ⟨hinner.merge hstored hmarks (hvisit target inner.seen) (hgrows target inner.seen), ?_⟩
  exact List.Subset.trans hmarks (hgrows target inner.seen)

theorem reports_visitOwn (scope : ScopeId) (seen : List ScopeId) :
    Reports graph name seen (graph.visitOwn name visit scope seen) := by
  unfold visitOwn
  split
  · exact reports_nothing graph name seen
  · rename_i hunseen
    refine reports_visitEach hstored hgrows hvisit ?_ (List.subset_cons_self scope seen) _
    refine ⟨hstored.nodup_declaredAs scope name, fun signature => ?_⟩
    constructor
    · intro hdeclared
      exact ⟨scope, List.mem_cons_self, hunseen, hdeclared⟩
    · rintro ⟨other, hother, hnew, hdeclared⟩
      rcases List.mem_cons.mp hother with rfl | hother
      · exact hdeclared
      · exact absurd hother hnew

theorem reports_visitBy (scope : ScopeId) (seen : List ScopeId) :
    Reports graph name seen (graph.visitBy name visit scope seen) := by
  have hown := reports_visitOwn hstored hgrows hvisit scope seen
  have hmarks := subset_visitOwn graph name hgrows scope seen
  unfold visitBy
  split
  · rename_i hempty
    have hbases := reports_visitEach hstored hgrows hvisit
      (reports_nothing graph name (graph.visitOwn name visit scope seen).seen)
      (List.Subset.refl _) (graph.directBases scope)
    refine hown.trans hmarks hbases (subset_visitEach hgrows _ _ _) hbases.nodup fun signature => ?_
    simp [List.isEmpty_iff.mp hempty]
  · exact hown

end Reports

theorem StoredOnce.reports_visit {accepts : Signature → Prop} {graph : ScopeGraph}
    (hstored : StoredOnce accepts graph) (name : String) (depth : Nat) (scope : ScopeId)
    (seen : List ScopeId) : Reports graph name seen (graph.visit name depth scope seen) := by
  induction depth generalizing scope seen with
  | zero => exact reports_nothing graph name seen
  | succ depth ih =>
      exact reports_visitBy hstored (graph.subset_visit name depth) ih scope seen

theorem StoredOnce.reports_visitAlone {accepts : Signature → Prop} {graph : ScopeGraph}
    (hstored : StoredOnce accepts graph) (name : String) (depth : Nat) (scope : ScopeId)
    (seen : List ScopeId) :
    Reports graph name seen (graph.visitOwn name (graph.visit name depth) scope seen) :=
  reports_visitOwn hstored (graph.subset_visit name depth) (hstored.reports_visit name depth)
    scope seen

/-! ## Marks lie where pull-ins and bases lead -/

/-- A visit of the first scope may go on to the second. -/
def Feeds (graph : ScopeGraph) (name : String) (upper lower : ScopeId) : Prop :=
  lower ∈ graph.pulledFrom upper name ∨ lower ∈ graph.directBases upper

/-- A visit of the first scope may come to the second, after any number of steps. -/
abbrev Reaches (graph : ScopeGraph) (name : String) : ScopeId → ScopeId → Prop :=
  Relation.ReflTransGen (graph.Feeds name)

section Reach

variable {graph : ScopeGraph} {name : String} {visit : ScopeId → List ScopeId → Walk}
  (hvisit : ∀ scope seen, ∀ marked ∈ (visit scope seen).seen,
    marked ∈ seen ∨ graph.Reaches name scope marked)
include hvisit

/-- Visits of several scopes only mark what one of them reaches. -/
theorem reaches_of_mem_visitEach {targets : List ScopeId} {walk : Walk} {marked : ScopeId}
    (hmarked : marked ∈ (visitEach visit targets walk).seen) :
    marked ∈ walk.seen ∨ ∃ target ∈ targets, graph.Reaches name target marked := by
  revert marked
  refine visitEach_induct (motive := fun inner => ∀ {marked}, marked ∈ inner.seen →
    marked ∈ walk.seen ∨ ∃ target ∈ targets, graph.Reaches name target marked) Or.inl ?_
  intro inner hinner target htarget marked hmarked
  rcases hvisit target inner.seen marked hmarked with hold | hreach
  · exact hinner hold
  · exact Or.inr ⟨target, htarget, hreach⟩

theorem reaches_of_mem_visitOwn {scope : ScopeId} {seen : List ScopeId} {marked : ScopeId}
    (hmarked : marked ∈ (graph.visitOwn name visit scope seen).seen) :
    marked ∈ seen ∨ marked = scope ∨
      ∃ target ∈ graph.pulledFrom scope name, graph.Reaches name target marked := by
  unfold visitOwn at hmarked
  split at hmarked
  · exact Or.inl hmarked
  · rcases reaches_of_mem_visitEach hvisit hmarked with hmarked | hreach
    · rcases List.mem_cons.mp hmarked with hself | hmarked
      · exact Or.inr (Or.inl hself)
      · exact Or.inl hmarked
    · exact Or.inr (Or.inr hreach)

theorem reaches_of_mem_visitBy {scope : ScopeId} {seen : List ScopeId} {marked : ScopeId}
    (hmarked : marked ∈ (graph.visitBy name visit scope seen).seen) :
    marked ∈ seen ∨ graph.Reaches name scope marked := by
  have hown : marked ∈ (graph.visitOwn name visit scope seen).seen →
      marked ∈ seen ∨ graph.Reaches name scope marked := by
    intro hmarked
    rcases reaches_of_mem_visitOwn hvisit hmarked with
      hold | rfl | ⟨target, hpulled, hreach⟩
    · exact Or.inl hold
    · exact Or.inr .refl
    · exact Or.inr (.head (Or.inl hpulled) hreach)
  unfold visitBy at hmarked
  split at hmarked
  · rcases reaches_of_mem_visitEach hvisit hmarked with hmarked | ⟨base, hbase, hreach⟩
    · exact hown hmarked
    · exact Or.inr (.head (Or.inr hbase) hreach)
  · exact hown hmarked

end Reach

theorem reaches_of_mem_visit (graph : ScopeGraph) (name : String) (depth : Nat)
    (scope : ScopeId) (seen : List ScopeId) :
    ∀ marked ∈ (graph.visit name depth scope seen).seen,
      marked ∈ seen ∨ graph.Reaches name scope marked := by
  induction depth generalizing scope seen with
  | zero => exact fun marked hmarked => Or.inl hmarked
  | succ depth ih => exact fun marked hmarked => reaches_of_mem_visitBy ih hmarked

/-! ## The depth suffices -/

section Congr

variable {graph : ScopeGraph} {name : String} {visit other : ScopeId → List ScopeId → Walk}
  (hgrows : ∀ scope seen, seen ⊆ (visit scope seen).seen)
include hgrows

theorem visitEach_congr {targets : List ScopeId} {walk : Walk}
    (hsame : ∀ target ∈ targets, ∀ seen, walk.seen ⊆ seen →
      visit target seen = other target seen) :
    visitEach visit targets walk = visitEach other targets walk := by
  induction targets generalizing walk with
  | nil => rfl
  | cons target rest ih =>
      have hhead : visit target walk.seen = other target walk.seen :=
        hsame target List.mem_cons_self walk.seen (List.Subset.refl _)
      have htail := @ih
        ⟨mergeUnique walk.found (visit target walk.seen).found, (visit target walk.seen).seen⟩
        fun next hnext seen hseen => hsame next (List.mem_cons_of_mem target hnext) seen
          (List.Subset.trans (hgrows target walk.seen) hseen)
      change visitEach visit rest ⟨_, _⟩ = visitEach other rest ⟨_, _⟩
      rw [htail, hhead]

/-- A visit only depends on the visits that it leads to. -/
theorem visitBy_congr {scope : ScopeId} {seen : List ScopeId}
    (hpulled : scope ∉ seen → ∀ target ∈ graph.pulledFrom scope name, ∀ marks,
      scope :: seen ⊆ marks → visit target marks = other target marks)
    (hbases : ∀ target ∈ graph.directBases scope, ∀ marks, seen ⊆ marks →
      visit target marks = other target marks) :
    graph.visitBy name visit scope seen = graph.visitBy name other scope seen := by
  have hown : graph.visitOwn name visit scope seen = graph.visitOwn name other scope seen := by
    unfold visitOwn
    split
    · rfl
    · rename_i hunseen
      exact visitEach_congr hgrows (hpulled hunseen)
  have hmarks := subset_visitOwn graph name hgrows scope seen
  have heach : visitEach visit (graph.directBases scope)
        ⟨[], (graph.visitOwn name visit scope seen).seen⟩ =
      visitEach other (graph.directBases scope)
        ⟨[], (graph.visitOwn name visit scope seen).seen⟩ :=
    visitEach_congr hgrows fun target htarget marks hle =>
      hbases target htarget marks (List.Subset.trans hmarks hle)
  unfold visitBy
  rw [heach, hown]

end Congr

/-- How many scopes are not marked. -/
def unmarked (graph : ScopeGraph) (seen : List ScopeId) : Nat :=
  ((Finset.range graph.size).filter fun index => ⟨index⟩ ∉ seen).card

/-- A bound on the depth of a visit: first the unmarked scopes count, then the number of
the scope, which falls on the way to a base. -/
def effort (graph : ScopeGraph) (scope : ScopeId) (seen : List ScopeId) : Nat :=
  graph.unmarked seen * (graph.size + 1) + scope.index + 1

section Effort

variable {graph : ScopeGraph} {scope target : ScopeId} {seen marks : List ScopeId}

theorem unmarked_le_size (graph : ScopeGraph) (seen : List ScopeId) :
    graph.unmarked seen ≤ graph.size := by
  simpa [unmarked] using
    Finset.card_filter_le (Finset.range graph.size) fun index => ⟨index⟩ ∉ seen

theorem unmarked_le (hmarks : seen ⊆ marks) : graph.unmarked marks ≤ graph.unmarked seen := by
  apply Finset.card_le_card
  apply Finset.monotone_filter_right
  intro index _ hunmarked hseen
  exact hunmarked (hmarks hseen)

theorem unmarked_lt (hscope : graph.holds scope = true) (hunseen : scope ∉ seen)
    (hmarks : scope :: seen ⊆ marks) : graph.unmarked marks < graph.unmarked seen := by
  apply Finset.card_lt_card
  refine Finset.ssubset_iff_subset_ne.mpr ⟨?_, ?_⟩
  · apply Finset.monotone_filter_right
    intro index _ hunmarked hseen
    exact hunmarked (hmarks (List.mem_cons_of_mem scope hseen))
  · intro hsame
    have hmem : scope.index ∈ (Finset.range graph.size).filter fun index => ⟨index⟩ ∉ seen := by
      simpa using ⟨(graph.holds_iff scope).mp hscope, hunseen⟩
    rw [← hsame, Finset.mem_filter] at hmem
    exact hmem.2 (hmarks List.mem_cons_self)

theorem effort_pulled_lt (hscope : graph.holds scope = true) (hunseen : scope ∉ seen)
    (htarget : graph.holds target = true) (hmarks : scope :: seen ⊆ marks) :
    graph.effort target marks < graph.effort scope seen := by
  have hfewer := unmarked_lt hscope hunseen hmarks
  have hindex := (graph.holds_iff target).mp htarget
  have hmul : (graph.unmarked marks + 1) * (graph.size + 1) ≤
      graph.unmarked seen * (graph.size + 1) := Nat.mul_le_mul_right _ hfewer
  rw [Nat.succ_mul] at hmul
  unfold effort
  omega

theorem effort_base_lt (graph : ScopeGraph) (holder : target.index < scope.index)
    (hmarks : seen ⊆ marks) :
    graph.effort target marks < graph.effort scope seen := by
  have hmul : graph.unmarked marks * (graph.size + 1) ≤
      graph.unmarked seen * (graph.size + 1) := Nat.mul_le_mul_right _ (unmarked_le hmarks)
  unfold effort
  omega

theorem effort_le_walkBound (hscope : graph.holds scope = true) (seen : List ScopeId) :
    graph.effort scope seen ≤ graph.walkBound := by
  have hindex := (graph.holds_iff scope).mp hscope
  have hmul : graph.unmarked seen * (graph.size + 1) ≤ graph.size * (graph.size + 1) :=
    Nat.mul_le_mul_right _ (graph.unmarked_le_size seen)
  unfold effort walkBound
  rw [Nat.succ_mul]
  omega

end Effort

section Depth

variable {graph : ScopeGraph} (hgrounded : graph.Grounded) (hhierarchy : graph.Hierarchy)
  (name : String)
include hgrounded hhierarchy

/-- A deeper visit is no different, once the depth covers the effort. -/
theorem visit_succ_eq {depth : Nat} {scope : ScopeId} {seen : List ScopeId}
    (heffort : graph.effort scope seen ≤ depth) :
    graph.visit name (depth + 1) scope seen = graph.visit name depth scope seen := by
  -- Pull-ins are followed only from a scope that was just marked, and a base has a smaller
  -- number than its class; so the effort falls with every visit that this one leads to.
  induction depth generalizing scope seen with
  | zero => simp [effort] at heffort
  | succ depth ih =>
      rw [visit_succ, visit_succ graph name depth]
      refine visitBy_congr (graph.subset_visit name (depth + 1)) ?_ ?_
      · intro hunseen target hpulled marks hmarks
        obtain ⟨hscope, htarget⟩ := hgrounded.holds_of_pulledFrom hpulled
        have hless := effort_pulled_lt hscope hunseen htarget hmarks
        exact ih (by omega)
      · intro target hbase marks hmarks
        have hless := graph.effort_base_lt (directBases_older hhierarchy hbase) hmarks
        exact ih (by omega)

/-- At `walkBound` a visit satisfies its recursion with no depth to run out of. -/
theorem visit_walkBound (scope : ScopeId) (seen : List ScopeId) :
    graph.visit name graph.walkBound scope seen =
      graph.visitBy name (graph.visit name graph.walkBound) scope seen := by
  obtain ⟨depth, hdepth⟩ : ∃ depth, graph.walkBound = depth + 1 :=
    Nat.exists_eq_succ_of_ne_zero (by simp [walkBound])
  rw [hdepth, visit_succ]
  have hbound : ∀ other marks, graph.holds other = true →
      graph.effort other marks ≤ depth + 1 := fun other marks hother =>
    hdepth ▸ effort_le_walkBound hother marks
  refine (visitBy_congr (graph.subset_visit name (depth + 1)) ?_ ?_).symm
  · intro hunseen target hpulled marks hmarks
    obtain ⟨hscope, htarget⟩ := hgrounded.holds_of_pulledFrom hpulled
    have hless := effort_pulled_lt hscope hunseen htarget hmarks
    have henough := hbound scope seen hscope
    exact visit_succ_eq hgrounded hhierarchy name (by omega)
  · intro target hbase marks hmarks
    have hless := graph.effort_base_lt (directBases_older hhierarchy hbase) hmarks
    have henough := hbound scope seen (holds_of_directBases hbase)
    exact visit_succ_eq hgrounded hhierarchy name (by omega)

end Depth

end ScopeGraph
end CallResolution
