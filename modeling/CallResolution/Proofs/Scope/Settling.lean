import Mathlib.Tactic
import CallResolution.Proofs.Scope.Visibility

/-!
# Nothing visible is lost

A walk at `walkBound` marks every scope whose declarations are visible.  The argument
follows the walk: when a visit is over, everything that the visited scope exposes is
marked.  For scopes that were marked before the visit this has to be known already; a
scope whose visit is still going on is not within reach, because nothing runs in a circle.

That every marked scope is exposed is NOT shown here, and is false in general.
-/

namespace CallResolution
namespace ScopeGraph

section Settling

variable {graph : ScopeGraph} {name : String}

theorem Layered.acyclic (hlayered : graph.Layered name) : graph.Acyclic name := by
  intro scope hcircle
  have htransitive : WellFounded
      (Relation.TransGen fun lower upper => graph.Feeds name upper lower) :=
    WellFounded.transGen hlayered
  exact htransitive.irrefl.irrefl scope (Relation.transGen_swap.mp hcircle)

/-- A scope below another does not reach back. -/
theorem Layered.not_reaches (hlayered : graph.Layered name) {upper lower : ScopeId}
    (hfeeds : graph.Feeds name upper lower) : ¬ graph.Reaches name lower upper :=
  fun hback => hlayered.acyclic upper (.head' hfeeds hback)

/-- Everything that a scope exposes is marked. -/
def Settled (hlayered : graph.Layered name) (marks : List ScopeId) (scope : ScopeId) : Prop :=
  ∀ exposed, Exposes hlayered scope exposed → exposed ∈ marks

theorem Settled.mono {hlayered : graph.Layered name} {marks more : List ScopeId}
    {scope : ScopeId} (hsettled : Settled hlayered marks scope) (hmarks : marks ⊆ more) :
    Settled hlayered more scope :=
  fun exposed hexposes => hmarks (hsettled exposed hexposes)

/-- The marked scopes within reach of a scope are settled. -/
def SettledWithin (hlayered : graph.Layered name) (marks : List ScopeId) (scope : ScopeId) :
    Prop :=
  ∀ marked ∈ marks, graph.Reaches name scope marked → Settled hlayered marks marked

/-- A visit settles the scope and every scope that it marks itself, provided that those
marked before and within reach were settled. -/
def Settles (hlayered : graph.Layered name) (visit : ScopeId → List ScopeId → Walk)
    (scope : ScopeId) : Prop :=
  ∀ seen, SettledWithin hlayered seen scope →
    Settled hlayered (visit scope seen).seen scope ∧
      ∀ marked ∈ (visit scope seen).seen,
        marked ∈ seen ∨ Settled hlayered (visit scope seen).seen marked

/-- The scope that is just being marked is out of reach of the scopes below it. -/
theorem SettledWithin.cons {hlayered : graph.Layered name} {seen : List ScopeId}
    {scope lower : ScopeId} (hseen : SettledWithin hlayered seen scope)
    (hfeeds : graph.Feeds name scope lower) : SettledWithin hlayered (scope :: seen) lower := by
  intro marked hmarked hreach
  rcases List.mem_cons.mp hmarked with rfl | hmarked
  · exact absurd hreach (hlayered.not_reaches hfeeds)
  · exact (hseen marked hmarked (.head hfeeds hreach)).mono (List.subset_cons_self scope seen)

section Settle

variable {hlayered : graph.Layered name} {visit : ScopeId → List ScopeId → Walk}
  (hgrows : ∀ scope seen, seen ⊆ (visit scope seen).seen)
include hgrows

theorem Settles.settledWithin {target next : ScopeId} {seen : List ScopeId}
    (hsettles : Settles hlayered visit target) (htarget : SettledWithin hlayered seen target)
    (hnext : SettledWithin hlayered seen next) :
    SettledWithin hlayered (visit target seen).seen next := by
  intro marked hmarked hreach
  rcases (hsettles seen htarget).2 marked hmarked with hold | hsettled
  · exact (hnext marked hold hreach).mono (hgrows target seen)
  · exact hsettled

theorem settled_visitEach {targets : List ScopeId}
    (htargets : ∀ target ∈ targets, Settles hlayered visit target) (found : List Signature)
    {seen : List ScopeId} (hseen : ∀ target ∈ targets, SettledWithin hlayered seen target) :
    (∀ target ∈ targets, Settled hlayered (visitEach visit targets ⟨found, seen⟩).seen target) ∧
      ∀ marked ∈ (visitEach visit targets ⟨found, seen⟩).seen,
        marked ∈ seen ∨ Settled hlayered (visitEach visit targets ⟨found, seen⟩).seen marked := by
  induction targets generalizing found seen with
  | nil => exact ⟨by simp, fun marked hmarked => Or.inl hmarked⟩
  | cons target rest ih =>
      have hhead := htargets target List.mem_cons_self
      have hwithin := hseen target List.mem_cons_self
      obtain ⟨hself, hnew⟩ := hhead seen hwithin
      obtain ⟨hothers, hfinal⟩ := ih
        (fun next hnext => htargets next (List.mem_cons_of_mem target hnext))
        (mergeUnique found (visit target seen).found)
        (fun next hnext => hhead.settledWithin hgrows hwithin
          (hseen next (List.mem_cons_of_mem target hnext)))
      have hlater := subset_visitEach hgrows rest
        (mergeUnique found (visit target seen).found) (visit target seen).seen
      refine ⟨?_, ?_⟩
      · intro next hnext
        rcases List.mem_cons.mp hnext with rfl | hnext
        · exact hself.mono hlater
        · exact hothers next hnext
      · intro marked hmarked
        rcases hfinal marked hmarked with hmarked | hsettled
        · rcases hnew marked hmarked with hold | hsettled
          · exact Or.inl hold
          · exact Or.inr (hsettled.mono hlater)
        · exact Or.inr hsettled

variable {scope : ScopeId} {seen : List ScopeId}
  (hbelow : ∀ lower, graph.Feeds name scope lower → Settles hlayered visit lower)
  (hseen : SettledWithin hlayered seen scope)
include hbelow hseen

theorem settled_visitOwn :
    scope ∈ (graph.visitOwn name visit scope seen).seen ∧
      (∀ target ∈ graph.pulledFrom scope name,
        Settled hlayered (graph.visitOwn name visit scope seen).seen target) ∧
      ∀ marked ∈ (graph.visitOwn name visit scope seen).seen,
        marked = scope ∨ marked ∈ seen ∨
          Settled hlayered (graph.visitOwn name visit scope seen).seen marked := by
  unfold visitOwn
  split
  · rename_i hmarked
    -- Nothing is visited again, but a scope marked before was settled before.
    refine ⟨hmarked, ?_, fun marked hold => Or.inr (Or.inl hold)⟩
    intro target hpulled exposed hexposes
    exact hseen scope hmarked .refl exposed (.pulled hpulled hexposes)
  · obtain ⟨hpulled, hnew⟩ := settled_visitEach hgrows
      (fun target hpulled => hbelow target (Or.inl hpulled)) (graph.declaredAs scope name)
      (fun target hpulled => hseen.cons (Or.inl hpulled))
    refine ⟨subset_visitEach hgrows _ _ _ List.mem_cons_self, hpulled, ?_⟩
    intro marked hmarked
    rcases hnew marked hmarked with hold | hsettled
    · rcases List.mem_cons.mp hold with hself | hold
      · exact Or.inl hself
      · exact Or.inr (Or.inl hold)
    · exact Or.inr (Or.inr hsettled)

theorem settledWithin_visitOwn {base : ScopeId} (hbase : base ∈ graph.directBases scope) :
    SettledWithin hlayered (graph.visitOwn name visit scope seen).seen base := by
  intro marked hmarked hreach
  rcases (settled_visitOwn hgrows hbelow hseen).2.2 marked hmarked with rfl | hold | hsettled
  · exact absurd hreach (hlayered.not_reaches (Or.inr hbase))
  · exact (hseen marked hold (.head (Or.inr hbase) hreach)).mono
      (subset_visitOwn graph name hgrows scope seen)
  · exact hsettled

variable {accepts : Signature → Prop} (hstored : StoredOnce accepts graph)
  (hreports : ∀ scope seen, Reports graph name seen (visit scope seen))
  (hreaches : ∀ scope seen, ∀ marked ∈ (visit scope seen).seen,
    marked ∈ seen ∨ graph.Reaches name scope marked)
include hstored hreports hreaches

omit hbelow hseen in
/-- What a visit finds without the bases shows that something is visible without them. -/
theorem visibleAlone_nonempty_of_mem {signature : Signature}
    (hmem : signature ∈ (graph.visitOwn name visit scope seen).found) :
    (visibleAlone hlayered scope).Nonempty := by
  obtain ⟨marked, hmarked, hnew, hdeclared⟩ :=
    ((reports_visitOwn hstored hgrows hreports scope seen).mem_iff signature).mp hmem
  rcases reaches_of_mem_visitOwn hreaches hmarked with hold | rfl | ⟨target, hpulled, hreach⟩
  · exact absurd hold hnew
  · exact ⟨signature, Or.inl hdeclared⟩
  · obtain ⟨other, hother⟩ :=
      visible_nonempty_of_reaches hlayered hreach (List.ne_nil_of_mem hdeclared)
    exact ⟨other, Or.inr ⟨target, hpulled, hother⟩⟩

theorem settled_visitBy :
    Settled hlayered (graph.visitBy name visit scope seen).seen scope ∧
      ∀ marked ∈ (graph.visitBy name visit scope seen).seen, marked = scope ∨ marked ∈ seen ∨
        Settled hlayered (graph.visitBy name visit scope seen).seen marked := by
  obtain ⟨hself, hpulled, hnew⟩ := settled_visitOwn hgrows hbelow hseen
  unfold visitBy
  split
  · obtain ⟨hinherited, hfinal⟩ := settled_visitEach hgrows
      (fun base hbase => hbelow base (Or.inr hbase)) []
      (fun base hbase => settledWithin_visitOwn hgrows hbelow hseen hbase)
    have hlater := subset_visitEach hgrows (graph.directBases scope) []
      (graph.visitOwn name visit scope seen).seen
    refine ⟨?_, ?_⟩
    · intro exposed hexposes
      cases hexposes with
      | self => exact hlater hself
      | pulled htarget hexposes => exact hlater (hpulled _ htarget exposed hexposes)
      | inherited _ hbase hexposes => exact hinherited _ hbase exposed hexposes
    · intro marked hmarked
      rcases hfinal marked hmarked with hmarked | hsettled
      · rcases hnew marked hmarked with hscope | hold | hsettled
        · exact Or.inl hscope
        · exact Or.inr (Or.inl hold)
        · exact Or.inr (Or.inr (hsettled.mono hlater))
      · exact Or.inr (Or.inr hsettled)
  · rename_i hfound
    -- The bases are not asked, and rightly so: what was found hides them.
    refine ⟨?_, hnew⟩
    intro exposed hexposes
    cases hexposes with
    | self => exact hself
    | pulled htarget hexposes => exact hpulled _ htarget exposed hexposes
    | inherited halone =>
        obtain ⟨signature, hmem⟩ := List.exists_mem_of_ne_nil _ (by simpa using hfound)
        exact absurd (visibleAlone_nonempty_of_mem hgrows hstored hreports hreaches hmem) halone

end Settle

/-- After a visit everything that the scope exposes is marked. -/
theorem settles_visit (hbuilt : graph.Built) (hlayered : graph.Layered name) (scope : ScopeId) :
    Settles hlayered (graph.visit name graph.walkBound) scope := by
  -- The recursion of the walk goes where the recursion of the reference goes.
  induction scope using hlayered.induction with
  | _ scope ih =>
      intro seen hseen
      rw [visit_walkBound hbuilt.grounded hbuilt.hierarchy]
      obtain ⟨hself, hnew⟩ := settled_visitBy (graph.subset_visit name graph.walkBound) ih hseen
        hbuilt.storedOnce (hbuilt.storedOnce.reports_visit name graph.walkBound)
        (graph.reaches_of_mem_visit name graph.walkBound)
      refine ⟨hself, fun marked hmarked => ?_⟩
      rcases hnew marked hmarked with rfl | hold | hsettled
      · exact Or.inr hself
      · exact Or.inl hold
      · exact Or.inr hsettled

end Settling
end ScopeGraph
end CallResolution
