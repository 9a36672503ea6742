import Mathlib.Tactic
import CallResolution.Proofs.Scope.Walk

/-!
# Walks that find nothing

A declaration is within reach of a scope if pull-ins and bases lead from the scope to where
it is declared.  A walk only finds declarations within reach, and it may well leave some of
them out, because a scope that offers something of its own does not ask its bases.  But
what a walk leaves out it leaves out for something that it found: a look-up that finds
nothing has been everywhere, and nothing is within reach.

This is the only kind of completeness that holds without a look at hiding.
-/

namespace CallResolution
namespace ScopeGraph

/-- Pull-ins and bases lead from the scope to a scope that declares the signature. -/
def WithinReach (graph : ScopeGraph) (name : String) (scope : ScopeId) (signature : Signature) :
    Prop :=
  ∃ lower, graph.Reaches name scope lower ∧ signature ∈ graph.declaredAs lower name

theorem WithinReach.of_declared {graph : ScopeGraph} {name : String} {scope : ScopeId}
    {signature : Signature} (hdeclared : signature ∈ graph.declaredAs scope name) :
    graph.WithinReach name scope signature :=
  ⟨scope, .refl, hdeclared⟩

theorem WithinReach.of_reaches {graph : ScopeGraph} {name : String} {upper scope : ScopeId}
    {signature : Signature} (hreach : graph.Reaches name upper scope)
    (hwithin : graph.WithinReach name scope signature) :
    graph.WithinReach name upper signature := by
  obtain ⟨lower, hlower, hdeclared⟩ := hwithin
  exact ⟨lower, hreach.trans hlower, hdeclared⟩

theorem WithinReach.mem_stored {graph : ScopeGraph} {name : String} {scope : ScopeId}
    {signature : Signature} (hwithin : graph.WithinReach name scope signature) :
    signature ∈ graph.stored := by
  obtain ⟨lower, _, hdeclared⟩ := hwithin
  exact mem_stored_of_declaredAs hdeclared

/-! ## What is found is within reach -/

theorem found_subset_visitEach (visit : ScopeId → List ScopeId → Walk) (targets : List ScopeId)
    (walk : Walk) : walk.found ⊆ (visitEach visit targets walk).found := by
  refine visitEach_induct (motive := fun inner => walk.found ⊆ inner.found)
    (List.Subset.refl _) ?_
  intro inner hinner target _
  exact List.Subset.trans hinner (KeyedSet.subset_insertAll _ _)

section Found

variable {graph : ScopeGraph} {name : String} {visit : ScopeId → List ScopeId → Walk}
  (hvisit : ∀ scope seen, ∀ signature ∈ (visit scope seen).found,
    graph.WithinReach name scope signature)
include hvisit

theorem withinReach_of_mem_visitEach {targets : List ScopeId} {walk : Walk}
    {signature : Signature} (hmem : signature ∈ (visitEach visit targets walk).found) :
    signature ∈ walk.found ∨ ∃ target ∈ targets, graph.WithinReach name target signature := by
  revert signature
  refine visitEach_induct (motive := fun inner => ∀ {signature}, signature ∈ inner.found →
    signature ∈ walk.found ∨ ∃ target ∈ targets, graph.WithinReach name target signature)
    Or.inl ?_
  intro inner hinner target htarget signature hmem
  rcases KeyedSet.mem_or_mem_of_mem_insertAll hmem with hold | hnew
  · exact hinner hold
  · exact Or.inr ⟨target, htarget, hvisit target inner.seen signature hnew⟩

theorem withinReach_of_mem_visitOwn {scope : ScopeId} {seen : List ScopeId}
    {signature : Signature} (hmem : signature ∈ (graph.visitOwn name visit scope seen).found) :
    signature ∈ graph.declaredAs scope name ∨
      ∃ target ∈ graph.pulledFrom scope name, graph.WithinReach name target signature := by
  unfold visitOwn at hmem
  split at hmem
  · cases hmem
  · exact withinReach_of_mem_visitEach hvisit hmem

theorem withinReach_of_mem_visitBy {scope : ScopeId} {seen : List ScopeId}
    {signature : Signature} (hmem : signature ∈ (graph.visitBy name visit scope seen).found) :
    graph.WithinReach name scope signature := by
  unfold visitBy at hmem
  split at hmem
  · rcases withinReach_of_mem_visitEach hvisit hmem with hnothing | ⟨base, hbase, hwithin⟩
    · cases hnothing
    · exact hwithin.of_reaches (.single (Or.inr hbase))
  · rcases withinReach_of_mem_visitOwn hvisit hmem with hdeclared | ⟨target, hpulled, hwithin⟩
    · exact .of_declared hdeclared
    · exact hwithin.of_reaches (.single (Or.inl hpulled))

end Found

theorem withinReach_of_mem_visit (graph : ScopeGraph) (name : String) (depth : Nat)
    (scope : ScopeId) (seen : List ScopeId) :
    ∀ signature ∈ (graph.visit name depth scope seen).found,
      graph.WithinReach name scope signature := by
  induction depth generalizing scope seen with
  | zero =>
      intro signature hmem
      cases hmem
  | succ depth ih => exact fun signature hmem => withinReach_of_mem_visitBy ih hmem

/-! ## A walk that finds nothing has been everywhere -/

/-- The scopes marked beyond those in `before` declare nothing, and lead only to marked
scopes. -/
structure Exhausts (graph : ScopeGraph) (name : String) (before seen : List ScopeId) :
    Prop where
  silent : ∀ scope ∈ seen, scope ∉ before → graph.declaredAs scope name = []
  closed : ∀ scope ∈ seen, scope ∉ before → ∀ lower, graph.Feeds name scope lower →
    lower ∈ seen

/-- If the visit finds nothing, it marks the scope and leaves out nothing that new marks
lead to. -/
def Thorough (graph : ScopeGraph) (name : String) (visit : ScopeId → List ScopeId → Walk)
    (scope : ScopeId) (seen : List ScopeId) : Prop :=
  (visit scope seen).found = [] →
    scope ∈ (visit scope seen).seen ∧ Exhausts graph name seen (visit scope seen).seen

section Exhaust

variable {graph : ScopeGraph} {name : String}

theorem exhausts_nothing (graph : ScopeGraph) (name : String) (seen : List ScopeId) :
    Exhausts graph name seen seen where
  silent _ hseen hnew := absurd hseen hnew
  closed _ hseen hnew := absurd hseen hnew

theorem Exhausts.trans {before middle seen : List ScopeId}
    (hfirst : Exhausts graph name before middle) (hsecond : Exhausts graph name middle seen)
    (hmore : middle ⊆ seen) : Exhausts graph name before seen where
  silent scope hseen hnew := by
    by_cases hmiddle : scope ∈ middle
    · exact hfirst.silent scope hmiddle hnew
    · exact hsecond.silent scope hseen hmiddle
  closed scope hseen hnew lower hfeeds := by
    by_cases hmiddle : scope ∈ middle
    · exact hmore (hfirst.closed scope hmiddle hnew lower hfeeds)
    · exact hsecond.closed scope hseen hmiddle lower hfeeds

/-- A scope may be marked on top, once it is silent and all that it leads to is marked. -/
theorem Exhausts.of_cons {scope : ScopeId} {before seen : List ScopeId}
    (hexhausts : Exhausts graph name (scope :: before) seen)
    (hsilent : graph.declaredAs scope name = [])
    (hclosed : ∀ lower, graph.Feeds name scope lower → lower ∈ seen) :
    Exhausts graph name before seen where
  silent other hseen hnew := by
    by_cases hself : other = scope
    · exact hself ▸ hsilent
    · exact hexhausts.silent other hseen (by simp [hself, hnew])
  closed other hseen hnew := by
    by_cases hself : other = scope
    · exact hself ▸ hclosed
    · exact hexhausts.closed other hseen (by simp [hself, hnew])

variable {visit : ScopeId → List ScopeId → Walk}
  (hgrows : ∀ scope seen, seen ⊆ (visit scope seen).seen)
include hgrows

theorem exhausts_visitEach {targets : List ScopeId} {found : List Signature}
    {seen : List ScopeId}
    (hvisit : ∀ target ∈ targets, ∀ marks, seen ⊆ marks → Thorough graph name visit target marks)
    (hnothing : (visitEach visit targets ⟨found, seen⟩).found = []) :
    found = [] ∧ targets ⊆ (visitEach visit targets ⟨found, seen⟩).seen ∧
      Exhausts graph name seen (visitEach visit targets ⟨found, seen⟩).seen := by
  induction targets generalizing found seen with
  | nil => exact ⟨hnothing, List.nil_subset _, exhausts_nothing graph name seen⟩
  | cons target rest ih =>
      have hmarks := hgrows target seen
      have hlater := subset_visitEach hgrows rest
        (mergeUnique found (visit target seen).found) (visit target seen).seen
      obtain ⟨hmerged, hrest, hexhausts⟩ := ih
        (fun next hnext marks hle => hvisit next (List.mem_cons_of_mem target hnext) marks
          (List.Subset.trans hmarks hle))
        hnothing
      -- Nothing is ever taken out again, so this visit found nothing either.
      obtain ⟨hold, hnew⟩ := KeyedSet.insertAll_eq_nil_iff.mp hmerged
      obtain ⟨hself, hfirst⟩ := hvisit target List.mem_cons_self seen (List.Subset.refl _) hnew
      exact ⟨hold, List.cons_subset.mpr ⟨hlater hself, hrest⟩, hfirst.trans hexhausts hlater⟩

/-- A visit is thorough if the visits are that it leads to. -/
theorem thorough_visitBy {scope : ScopeId} {seen : List ScopeId}
    (hpulled : scope ∉ seen → ∀ target ∈ graph.pulledFrom scope name, ∀ marks,
      scope :: seen ⊆ marks → Thorough graph name visit target marks)
    (hbases : ∀ base ∈ graph.directBases scope, ∀ marks, seen ⊆ marks →
      Thorough graph name visit base marks) :
    Thorough graph name (graph.visitBy name visit) scope seen := by
  intro hnothing
  have hmarks := subset_visitOwn graph name hgrows scope seen
  unfold visitBy at hnothing ⊢
  split at hnothing
  · rename_i hown
    rw [if_pos hown]
    rw [List.isEmpty_iff] at hown
    obtain ⟨_, hinherited, hlast⟩ := exhausts_visitEach hgrows
      (fun base hbase marks hle => hbases base hbase marks (List.Subset.trans hmarks hle))
      hnothing
    have hlater := subset_visitEach hgrows (graph.directBases scope) []
      (graph.visitOwn name visit scope seen).seen
    by_cases hseen : scope ∈ seen
    · -- A scope marked before is not new, so only the visits of its bases count.
      refine ⟨hlater (hmarks hseen), ?_⟩
      have hsame : (graph.visitOwn name visit scope seen).seen = seen := by
        rw [visitOwn, if_pos hseen]
      rw [hsame] at hlast ⊢
      exact hlast
    · rw [visitOwn, if_neg hseen] at hown hlast hlater hinherited ⊢
      obtain ⟨hsilent, htargets, hfirst⟩ := exhausts_visitEach hgrows (hpulled hseen) hown
      have hself := subset_visitEach hgrows (graph.pulledFrom scope name)
        (graph.declaredAs scope name) (scope :: seen) List.mem_cons_self
      refine ⟨hlater hself, (hfirst.trans hlast hlater).of_cons hsilent ?_⟩
      rintro lower (htarget | hbase)
      · exact hlater (htargets htarget)
      · exact hinherited hbase
  · rename_i hown
    exact absurd (List.isEmpty_iff.mpr hnothing) hown

end Exhaust

section Built

variable {graph : ScopeGraph} (hgrounded : graph.Grounded) (hhierarchy : graph.Hierarchy)
  (name : String)
include hgrounded hhierarchy

theorem thorough_visit (scope : ScopeId) (seen : List ScopeId) :
    Thorough graph name (graph.visit name graph.walkBound) scope seen := by
  -- The effort falls with every visit that this one leads to.
  induction heffort : graph.effort scope seen using Nat.strong_induction_on
    generalizing scope seen with
  | _ effort ih =>
      rw [Thorough, visit_walkBound hgrounded hhierarchy]
      refine thorough_visitBy (graph.subset_visit name graph.walkBound) ?_ ?_
      · intro hunseen target hpulled marks hmarks
        obtain ⟨hscope, htarget⟩ := hgrounded.holds_of_pulledFrom hpulled
        have hless := effort_pulled_lt hscope hunseen htarget hmarks
        exact ih _ (heffort ▸ hless) target marks rfl
      · intro base hbase marks hmarks
        have hless := graph.effort_base_lt (directBases_older hhierarchy hbase) hmarks
        exact ih _ (heffort ▸ hless) base marks rfl

/-- A look-up finds nothing exactly if nothing is within reach. -/
theorem offered_eq_nil_iff (scope : ScopeId) :
    graph.offered name scope = [] ↔
      ∀ signature, ¬ graph.WithinReach name scope signature := by
  constructor
  · rintro hnothing signature ⟨lower, hreach, hdeclared⟩
    obtain ⟨hself, hexhausts⟩ := thorough_visit hgrounded hhierarchy name scope [] hnothing
    have hmarked : ∀ other, graph.Reaches name scope other →
        other ∈ (graph.visit name graph.walkBound scope []).seen := by
      intro other hreach
      induction hreach with
      | refl => exact hself
      | tail _ hfeeds ih => exact hexhausts.closed _ ih List.not_mem_nil _ hfeeds
    rw [hexhausts.silent lower (hmarked lower hreach) List.not_mem_nil] at hdeclared
    cases hdeclared
  · intro hnone
    refine List.eq_nil_iff_forall_not_mem.mpr fun signature hmem => ?_
    exact hnone signature (graph.withinReach_of_mem_visit name graph.walkBound scope [] _ hmem)

end Built

end ScopeGraph
end CallResolution
