import Mathlib.Data.Set.Card
import Mathlib.Logic.Relation
import Mathlib.Tactic
import CallResolution.Proofs.Scope.Walk

/-!
# What is visible, and what is hidden

The reference for look-up, by recursion and without any marks: a scope sees its own
declarations and what the scopes it pulls from see; a class where that is nothing sees
what its direct bases see.  The recursion needs pull-ins and bases not to run in a
circle.

`Exposes` says the same in terms of paths.  A path may always follow a pull-in, but it
may go on to a base only where nothing hides that base.
-/

namespace CallResolution
namespace ScopeGraph

/-! ## No circles -/

/-- Pull-ins of this name and bases together never lead back to a scope. -/
def Acyclic (graph : ScopeGraph) (name : String) : Prop :=
  ∀ scope, ¬ Relation.TransGen (graph.Feeds name) scope scope

/-- Recursion along pull-ins and bases ends. -/
def Layered (graph : ScopeGraph) (name : String) : Prop :=
  WellFounded fun lower upper => graph.Feeds name upper lower

section Layers

variable {graph : ScopeGraph} {name : String}

theorem Feeds.holds (hgrounded : graph.Grounded) (hhierarchy : graph.Hierarchy)
    {upper lower : ScopeId} (hfeeds : graph.Feeds name upper lower) :
    graph.holds lower = true := by
  rcases hfeeds with hpulled | hbase
  · exact (hgrounded.holds_of_pulledFrom hpulled).2
  · have holder := directBases_older hhierarchy hbase
    have hupper := (graph.holds_iff upper).mp (holds_of_directBases hbase)
    exact (graph.holds_iff lower).mpr (by omega)

/-- The scopes strictly below a scope. -/
def below (graph : ScopeGraph) (name : String) (scope : ScopeId) : Set ScopeId :=
  {lower | Relation.TransGen (graph.Feeds name) scope lower}

theorem finite_below (hgrounded : graph.Grounded) (hhierarchy : graph.Hierarchy)
    (name : String) (scope : ScopeId) : (graph.below name scope).Finite := by
  refine ((Set.finite_lt_nat graph.size).image ScopeId.mk).subset ?_
  intro lower hbelow
  obtain ⟨upper, _, hfeeds⟩ := Relation.TransGen.tail'_iff.mp hbelow
  exact ⟨lower.index, (graph.holds_iff lower).mp (hfeeds.holds hgrounded hhierarchy), rfl⟩

/-- Without circles the scopes below become fewer with every step. -/
theorem Acyclic.layered (hacyclic : graph.Acyclic name) (hbuilt : graph.Built) :
    graph.Layered name := by
  have hfinite := finite_below hbuilt.grounded hbuilt.hierarchy name
  have hless : ∀ lower upper, graph.Feeds name upper lower →
      (graph.below name lower).ncard < (graph.below name upper).ncard := by
    intro lower upper hfeeds
    apply Set.ncard_lt_ncard _ (hfinite upper)
    -- The lower scope itself is below the upper one, but not below itself.
    refine ⟨fun other hbelow => .head hfeeds hbelow, fun hback => ?_⟩
    exact hacyclic lower (hback (.single hfeeds))
  exact Subrelation.wf (fun {lower upper} => hless lower upper)
    (measure fun scope => (graph.below name scope).ncard).wf

end Layers

/-! ## The reference sets -/

section Sets

variable {graph : ScopeGraph} {name : String} (hlayered : graph.Layered name)

open Classical in
/-- What a scope sees under a name. -/
noncomputable def visible : ScopeId → Set Signature :=
  hlayered.fix fun scope visible =>
    let own : Set Signature :=
      {signature | signature ∈ graph.declaredAs scope name ∨
        ∃ target, ∃ hpulled : target ∈ graph.pulledFrom scope name,
          signature ∈ visible target (Or.inl hpulled)}
    if own.Nonempty then own
    else {signature | ∃ base, ∃ hbase : base ∈ graph.directBases scope,
      signature ∈ visible base (Or.inr hbase)}

/-- What a scope sees without asking its bases. -/
def visibleAlone (scope : ScopeId) : Set Signature :=
  {signature | signature ∈ graph.declaredAs scope name ∨
    ∃ target ∈ graph.pulledFrom scope name, signature ∈ visible hlayered target}

open Classical in
theorem visible_eq (scope : ScopeId) :
    visible hlayered scope =
      if (visibleAlone hlayered scope).Nonempty then visibleAlone hlayered scope
      else {signature | ∃ base ∈ graph.directBases scope, signature ∈ visible hlayered base} := by
  have halone : visibleAlone hlayered scope =
      {signature | signature ∈ graph.declaredAs scope name ∨
        ∃ target, ∃ _ : target ∈ graph.pulledFrom scope name,
          signature ∈ visible hlayered target} := by
    simp only [visibleAlone, exists_prop]
  have hbases : {signature | ∃ base ∈ graph.directBases scope, signature ∈ visible hlayered base} =
      {signature | ∃ base, ∃ _ : base ∈ graph.directBases scope,
        signature ∈ visible hlayered base} := by
    simp only [exists_prop]
  rw [halone, hbases]
  exact hlayered.fix_eq _ scope

theorem visible_of_nonempty {scope : ScopeId} (halone : (visibleAlone hlayered scope).Nonempty) :
    visible hlayered scope = visibleAlone hlayered scope := by
  rw [visible_eq, if_pos halone]

theorem visible_of_empty {scope : ScopeId} (halone : ¬ (visibleAlone hlayered scope).Nonempty) :
    visible hlayered scope =
      {signature | ∃ base ∈ graph.directBases scope, signature ∈ visible hlayered base} := by
  rw [visible_eq, if_neg halone]

/-- A scope sees something as soon as a declaration can be reached from it at all. -/
theorem visible_nonempty_of_reaches {scope lower : ScopeId}
    (hreach : graph.Reaches name scope lower) (hdeclared : graph.declaredAs lower name ≠ []) :
    (visible hlayered scope).Nonempty := by
  induction hreach using Relation.ReflTransGen.head_induction_on with
  | refl =>
      obtain ⟨signature, hmem⟩ := List.exists_mem_of_ne_nil _ hdeclared
      have halone : (visibleAlone hlayered lower).Nonempty := ⟨signature, Or.inl hmem⟩
      rwa [visible_of_nonempty hlayered halone]
  | @head scope next hfeeds _ ih =>
      obtain ⟨signature, hmem⟩ := ih
      by_cases halone : (visibleAlone hlayered scope).Nonempty
      · rwa [visible_of_nonempty hlayered halone]
      · rcases hfeeds with hpulled | hbase
        · exact absurd ⟨signature, Or.inr ⟨next, hpulled, hmem⟩⟩ halone
        · rw [visible_of_empty hlayered halone]
          exact ⟨signature, next, hbase, hmem⟩

/-! ## Exposure -/

/-- The declarations of the second scope are not hidden from the first. -/
inductive Exposes : ScopeId → ScopeId → Prop
  | self (scope : ScopeId) : Exposes scope scope
  | pulled {scope target exposed : ScopeId} (hpulled : target ∈ graph.pulledFrom scope name)
      (hexposes : Exposes target exposed) : Exposes scope exposed
  | inherited {scope base exposed : ScopeId}
      (halone : ¬ (visibleAlone hlayered scope).Nonempty)
      (hbase : base ∈ graph.directBases scope) (hexposes : Exposes base exposed) :
      Exposes scope exposed

theorem Exposes.trans {scope middle exposed : ScopeId}
    (hfirst : Exposes hlayered scope middle) (hsecond : Exposes hlayered middle exposed) :
    Exposes hlayered scope exposed := by
  induction hfirst with
  | self => exact hsecond
  | pulled hpulled _ ih => exact .pulled hpulled (ih hsecond)
  | inherited halone hbase _ ih => exact .inherited halone hbase (ih hsecond)

theorem Exposes.reaches {scope exposed : ScopeId} (hexposes : Exposes hlayered scope exposed) :
    graph.Reaches name scope exposed := by
  induction hexposes with
  | self => exact .refl
  | pulled hpulled _ ih => exact .head (Or.inl hpulled) ih
  | inherited _ hbase _ ih => exact .head (Or.inr hbase) ih

/-- A scope sees the declarations of the scopes that it exposes. -/
theorem mem_visible_iff (scope : ScopeId) (signature : Signature) :
    signature ∈ visible hlayered scope ↔
      ∃ exposed, Exposes hlayered scope exposed ∧
        signature ∈ graph.declaredAs exposed name := by
  induction scope using hlayered.induction with
  | _ scope ih =>
      by_cases halone : (visibleAlone hlayered scope).Nonempty
      · rw [visible_of_nonempty hlayered halone]
        constructor
        · rintro (hdeclared | ⟨target, hpulled, hmem⟩)
          · exact ⟨scope, .self scope, hdeclared⟩
          · obtain ⟨exposed, hexposes, hdeclared⟩ := (ih target (Or.inl hpulled)).mp hmem
            exact ⟨exposed, .pulled hpulled hexposes, hdeclared⟩
        · rintro ⟨exposed, hexposes, hdeclared⟩
          cases hexposes with
          | self => exact Or.inl hdeclared
          | @pulled _ target _ hpulled hexposes =>
              exact Or.inr ⟨target, hpulled,
                (ih target (Or.inl hpulled)).mpr ⟨exposed, hexposes, hdeclared⟩⟩
          | inherited hempty => exact absurd halone hempty
      · rw [visible_of_empty hlayered halone]
        constructor
        · rintro ⟨base, hbase, hmem⟩
          obtain ⟨exposed, hexposes, hdeclared⟩ := (ih base (Or.inr hbase)).mp hmem
          exact ⟨exposed, .inherited halone hbase hexposes, hdeclared⟩
        · rintro ⟨exposed, hexposes, hdeclared⟩
          cases hexposes with
          | self => exact absurd ⟨signature, Or.inl hdeclared⟩ halone
          | @pulled _ target _ hpulled hexposes =>
              have hmem := (ih target (Or.inl hpulled)).mpr ⟨exposed, hexposes, hdeclared⟩
              exact absurd ⟨signature, Or.inr ⟨target, hpulled, hmem⟩⟩ halone
          | @inherited _ base _ _ hbase hexposes =>
              exact ⟨base, hbase, (ih base (Or.inr hbase)).mpr ⟨exposed, hexposes, hdeclared⟩⟩

end Sets

end ScopeGraph
end CallResolution
