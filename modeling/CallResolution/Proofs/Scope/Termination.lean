import Mathlib.Tactic
import CallResolution.Proofs.Scope.Outwards

/-!
# Look-ups come to an end

A look-up carries a bound on its depth, and a climb a bound on its steps.  Here both are
evaluated without a bound.  `Answers` derives the outcome of a visit rule by rule, so that a
derivation is an evaluation that has ended, and `TurnsTo` says which question an evaluation turns
to while it works on another one.

In a graph built by commands no evaluation turns from question to question for ever, whatever
the pull-ins are: circles, scopes that pull from themselves, bases named twice.  Marks alone do
not show this, because a marked scope still asks its bases; bases end because they are older.
So every question has one answer, and it is the one that the bounded walk gives.
-/

namespace CallResolution
namespace ScopeGraph

/-- What an evaluation may have to find out. -/
inductive Question where
  /-- What a scope offers, its bases included. -/
  | whole (scope : ScopeId) (seen : List ScopeId)
  /-- What a scope declares and pulls in. -/
  | own (scope : ScopeId) (seen : List ScopeId)
  /-- What the scopes of a list offer, merged into what was found. -/
  | each (targets : List ScopeId) (walk : Walk)

namespace Question

/-- The scopes that are marked when the question is put. -/
def seen : Question → List ScopeId
  | .whole _ seen => seen
  | .own _ seen => seen
  | .each _ walk => walk.seen

end Question

/-- An evaluation of the question has ended with this walk.  There is no bound on its depth. -/
inductive Answers (graph : ScopeGraph) (name : String) : Question → Walk → Prop
  | again {scope : ScopeId} {seen : List ScopeId} (hseen : scope ∈ seen) :
      Answers graph name (.own scope seen) ⟨[], seen⟩
  | fresh {scope : ScopeId} {seen : List ScopeId} {walk : Walk} (hunseen : scope ∉ seen)
      (hpulled : Answers graph name
        (.each (graph.pulledFrom scope name) ⟨graph.declaredAs scope name, scope :: seen⟩) walk) :
      Answers graph name (.own scope seen) walk
  | kept {scope : ScopeId} {seen : List ScopeId} {own : Walk}
      (hown : Answers graph name (.own scope seen) own) (hfound : own.found ≠ []) :
      Answers graph name (.whole scope seen) own
  | inherited {scope : ScopeId} {seen : List ScopeId} {own walk : Walk}
      (hown : Answers graph name (.own scope seen) own) (hnothing : own.found = [])
      (hbases : Answers graph name (.each (graph.directBases scope) ⟨[], own.seen⟩) walk) :
      Answers graph name (.whole scope seen) walk
  | done (walk : Walk) : Answers graph name (.each [] walk) walk
  | next {target : ScopeId} {rest : List ScopeId} {walk inner last : Walk}
      (htarget : Answers graph name (.whole target walk.seen) inner)
      (hrest : Answers graph name
        (.each rest ⟨mergeUnique walk.found inner.found, inner.seen⟩) last) :
      Answers graph name (.each (target :: rest) walk) last

/-- An evaluation of the first question turns to the second.  What it turns to after an earlier
question depends on the answer to that one. -/
inductive TurnsTo (graph : ScopeGraph) (name : String) : Question → Question → Prop
  | pulled {scope : ScopeId} {seen : List ScopeId} (hunseen : scope ∉ seen) :
      TurnsTo graph name (.own scope seen)
        (.each (graph.pulledFrom scope name) ⟨graph.declaredAs scope name, scope :: seen⟩)
  | own (scope : ScopeId) (seen : List ScopeId) :
      TurnsTo graph name (.whole scope seen) (.own scope seen)
  | bases {scope : ScopeId} {seen : List ScopeId} {own : Walk}
      (hown : Answers graph name (.own scope seen) own) (hnothing : own.found = []) :
      TurnsTo graph name (.whole scope seen) (.each (graph.directBases scope) ⟨[], own.seen⟩)
  | target (target : ScopeId) (rest : List ScopeId) (walk : Walk) :
      TurnsTo graph name (.each (target :: rest) walk) (.whole target walk.seen)
  | rest {target : ScopeId} {rest : List ScopeId} {walk inner : Walk}
      (htarget : Answers graph name (.whole target walk.seen) inner) :
      TurnsTo graph name (.each (target :: rest) walk)
        (.each rest ⟨mergeUnique walk.found inner.found, inner.seen⟩)

section Evaluation

variable {graph : ScopeGraph} {name : String}

theorem Answers.seen_subset {question : Question} {walk : Walk}
    (hanswers : graph.Answers name question walk) : question.seen ⊆ walk.seen := by
  induction hanswers with
  | again => exact List.Subset.refl _
  | fresh _ _ ih => exact (List.cons_subset.mp ih).2
  | kept _ _ ih => exact ih
  | inherited _ _ _ ihown ihbases => exact List.Subset.trans ihown ihbases
  | done walk => exact List.Subset.refl _
  | next _ _ ihtarget ihrest => exact List.Subset.trans ihtarget ihrest

/-! ## No evaluation goes on for ever -/

/-- No endless sequence of questions begins with this one. -/
def Ends (graph : ScopeGraph) (name : String) : Question → Prop :=
  Acc fun inner outer => graph.TurnsTo name outer inner

theorem ends_each {targets : List ScopeId} {walk : Walk}
    (hwhole : ∀ target ∈ targets, ∀ marks, walk.seen ⊆ marks →
      graph.Ends name (.whole target marks)) :
    graph.Ends name (.each targets walk) := by
  induction targets generalizing walk with
  | nil =>
      refine Acc.intro _ fun inner hturns => ?_
      cases hturns
  | cons target rest ih =>
      refine Acc.intro _ fun inner hturns => ?_
      cases hturns with
      | target => exact hwhole target List.mem_cons_self walk.seen (List.Subset.refl _)
      | rest htarget =>
          -- The first answer leaves more marks, never fewer.
          refine ih fun next hnext marks hmarks => ?_
          exact hwhole next (List.mem_cons_of_mem target hnext) marks
            (List.Subset.trans htarget.seen_subset hmarks)

theorem ends_own {scope : ScopeId} {seen : List ScopeId}
    (hpulled : scope ∉ seen → ∀ target ∈ graph.pulledFrom scope name, ∀ marks,
      scope :: seen ⊆ marks → graph.Ends name (.whole target marks)) :
    graph.Ends name (.own scope seen) := by
  refine Acc.intro _ fun inner hturns => ?_
  cases hturns with
  | pulled hunseen => exact ends_each (hpulled hunseen)

theorem ends_whole_of_parts {scope : ScopeId} {seen : List ScopeId}
    (hown : graph.Ends name (.own scope seen))
    (hbases : ∀ base ∈ graph.directBases scope, ∀ marks, seen ⊆ marks →
      graph.Ends name (.whole base marks)) :
    graph.Ends name (.whole scope seen) := by
  refine Acc.intro _ fun inner hturns => ?_
  cases hturns with
  | own => exact hown
  | bases hanswers =>
      exact ends_each fun base hbase marks hmarks =>
        hbases base hbase marks (List.Subset.trans hanswers.seen_subset hmarks)

section Built

variable (hgrounded : graph.Grounded) (hhierarchy : graph.Hierarchy)
include hgrounded hhierarchy

theorem ends_whole (scope : ScopeId) (seen : List ScopeId) :
    graph.Ends name (.whole scope seen) := by
  -- A pull-in is followed only from a scope that was just marked, and a base is older than its
  -- class, so the effort falls on the way to the next visit.
  induction heffort : graph.effort scope seen using Nat.strong_induction_on
    generalizing scope seen with
  | _ effort ih =>
      refine ends_whole_of_parts (ends_own ?_) ?_
      · intro hunseen target hpulled marks hmarks
        obtain ⟨hscope, htarget⟩ := hgrounded.holds_of_pulledFrom hpulled
        have hless := effort_pulled_lt hscope hunseen htarget hmarks
        exact ih _ (heffort ▸ hless) target marks rfl
      · intro base hbase marks hmarks
        have hless := graph.effort_base_lt (directBases_older hhierarchy hbase) hmarks
        exact ih _ (heffort ▸ hless) base marks rfl

theorem turnsTo_wellFounded : WellFounded fun inner outer => graph.TurnsTo name outer inner := by
  have hwhole : ∀ scope seen, graph.Ends name (.whole scope seen) :=
    ends_whole hgrounded hhierarchy
  refine ⟨fun question => ?_⟩
  cases question with
  | whole scope seen => exact hwhole scope seen
  | own scope seen => exact ends_own fun _ target _ marks _ => hwhole target marks
  | each targets walk => exact ends_each fun target _ marks _ => hwhole target marks

end Built

/-! ## Every question has one answer -/

/-- Where no evaluation goes on for ever, every question is answered. -/
theorem exists_answers
    (hends : WellFounded fun inner outer => graph.TurnsTo name outer inner) (question : Question) :
    ∃ walk, graph.Answers name question walk := by
  induction question using hends.induction with
  | _ question ih =>
      cases question with
      | own scope seen =>
          by_cases hseen : scope ∈ seen
          · exact ⟨_, .again hseen⟩
          · obtain ⟨walk, hpulled⟩ := ih _ (.pulled hseen)
            exact ⟨walk, .fresh hseen hpulled⟩
      | whole scope seen =>
          -- Whether the bases are asked is decided by this answer.
          obtain ⟨own, hown⟩ := ih _ (.own scope seen)
          by_cases hnothing : own.found = []
          · obtain ⟨walk, hbases⟩ := ih _ (.bases hown hnothing)
            exact ⟨walk, .inherited hown hnothing hbases⟩
          · exact ⟨own, .kept hown hnothing⟩
      | each targets walk =>
          cases targets with
          | nil => exact ⟨walk, .done walk⟩
          | cons target rest =>
              obtain ⟨inner, htarget⟩ := ih _ (.target target rest walk)
              obtain ⟨last, hrest⟩ := ih _ (.rest htarget)
              exact ⟨last, .next htarget hrest⟩

/-- What the bounded walk says to a question. -/
def boundedAnswer (graph : ScopeGraph) (name : String) : Question → Walk
  | .whole scope seen => graph.visit name graph.walkBound scope seen
  | .own scope seen => graph.visitOwn name (graph.visit name graph.walkBound) scope seen
  | .each targets walk => visitEach (graph.visit name graph.walkBound) targets walk

variable (hgrounded : graph.Grounded) (hhierarchy : graph.Hierarchy)
include hgrounded hhierarchy

theorem Answers.eq_boundedAnswer {question : Question} {walk : Walk}
    (hanswers : graph.Answers name question walk) :
    walk = graph.boundedAnswer name question := by
  induction hanswers with
  | again hseen => rw [boundedAnswer, visitOwn, if_pos hseen]
  | fresh hunseen _ ih => rw [boundedAnswer, visitOwn, if_neg hunseen, ih, boundedAnswer]
  | kept _ hfound ih =>
      simp only [boundedAnswer] at ih ⊢
      rw [visit_walkBound hgrounded hhierarchy, visitBy, ← ih,
        if_neg (mt List.isEmpty_iff.mp hfound)]
  | inherited _ hnothing _ ihown ihbases =>
      simp only [boundedAnswer] at ihown ihbases ⊢
      rw [visit_walkBound hgrounded hhierarchy, visitBy, ← ihown,
        if_pos (List.isEmpty_iff.mpr hnothing), ihbases]
  | done walk => rfl
  | next _ _ ihtarget ihrest =>
      simp only [boundedAnswer] at ihtarget ihrest ⊢
      rw [ihrest, ihtarget]
      rfl

theorem answers_iff {question : Question} {walk : Walk} :
    graph.Answers name question walk ↔ walk = graph.boundedAnswer name question := by
  refine ⟨fun hanswers => hanswers.eq_boundedAnswer hgrounded hhierarchy, ?_⟩
  rintro rfl
  obtain ⟨walk, hanswers⟩ :=
    exists_answers (turnsTo_wellFounded hgrounded hhierarchy) question
  rw [← hanswers.eq_boundedAnswer hgrounded hhierarchy]
  exact hanswers

end Evaluation

/-! ## Climbing -/

section Climbing

variable {graph : ScopeGraph} (hbuilt : graph.Built)
include hbuilt

theorem Built.outer_wellFounded :
    WellFounded fun outer inner => graph.outer? inner = some outer :=
  Subrelation.wf (fun houter => hbuilt.forest.outer_older hbuilt.grounded houter)
    (measure ScopeId.index).wf

theorem Built.enclosing_eq (scope : ScopeId) :
    graph.enclosing scope =
      scope :: ((graph.outer? scope).map graph.enclosing).getD [] := by
  cases houter : graph.outer? scope with
  | none => rw [enclosing_of_outermost houter, Option.map_none, Option.getD_none]
  | some outer =>
      rw [hbuilt.forest.enclosing_of_outer hbuilt.grounded houter, Option.map_some,
        Option.getD_some]

theorem Built.firstOffer_eq (offer : ScopeId → List Signature) (start : ScopeId) :
    graph.firstOffer offer start =
      if offer start = [] then (graph.outer? start).bind (graph.firstOffer offer)
      else some (start, offer start) := by
  split
  · rename_i hnothing
    cases houter : graph.outer? start with
    | none => exact firstOffer_of_outermost hnothing houter
    | some outer => exact firstOffer_of_outer hbuilt hnothing houter
  · rename_i hoffers
    exact firstOffer_of_offers hoffers

theorem Built.pathNames_eq (scope : ScopeId) :
    graph.pathNames scope =
      ((graph.outer? scope).map graph.pathNames).getD [] ++ (graph.ownName? scope).toList := by
  rw [pathNames, hbuilt.enclosing_eq, List.filterMap_cons]
  cases graph.ownName? scope <;> cases graph.outer? scope <;> simp [pathNames]

theorem Built.innermostSpace_eq (scope : ScopeId) :
    graph.innermostSpace scope =
      if graph.kind? scope = some .space then scope
      else ((graph.outer? scope).map graph.innermostSpace).getD graph.root := by
  rw [innermostSpace, hbuilt.enclosing_eq, List.find?_cons]
  by_cases hspace : graph.kind? scope = some .space
  · simp [hspace]
  · cases graph.outer? scope <;> simp [hspace, innermostSpace]

end Climbing

/-- In a graph built by commands, for every name and every scope, held or not: no evaluation of a
visit turns from question to question for ever, each question has one answer, and what a scope
or a class offers is that answer.  No way outwards goes on for ever either, and each of the
four functions that go outwards takes one step and leaves the rest to the outer scope. -/
theorem lookups_and_climbs_end {graph : ScopeGraph} (hbuilt : graph.Built) (name : String) :
    (WellFounded fun inner outer => graph.TurnsTo name outer inner) ∧
    (∀ question, ∃! walk, graph.Answers name question walk) ∧
    (∀ scope, ∃ seen,
      graph.Answers name (.whole scope []) ⟨graph.offered name scope, seen⟩) ∧
    (∀ scope, ∃ seen,
      graph.Answers name (.own scope []) ⟨graph.offeredAlone name scope, seen⟩) ∧
    (∀ type, ∀ body ∈ graph.body? type, ∃ seen,
      graph.Answers name (.whole body []) ⟨graph.lookupInClass type name, seen⟩) ∧
    (WellFounded fun outer inner => graph.outer? inner = some outer) ∧
    (∀ start, graph.lookup name start =
      if graph.offered name start = [] then (graph.outer? start).bind (graph.lookup name)
      else some (start, graph.offered name start)) ∧
    (∀ start, graph.lookupFree name start =
      if (graph.offered name start).filter (!·.isMember) = [] then
        (graph.outer? start).bind (graph.lookupFree name)
      else some (start, (graph.offered name start).filter (!·.isMember))) ∧
    (∀ scope, graph.pathNames scope =
      ((graph.outer? scope).map graph.pathNames).getD [] ++ (graph.ownName? scope).toList) ∧
    ∀ scope, graph.innermostSpace scope =
      if graph.kind? scope = some .space then scope
      else ((graph.outer? scope).map graph.innermostSpace).getD graph.root := by
  have hanswers : ∀ question, graph.Answers name question (graph.boundedAnswer name question) :=
    fun question => (answers_iff hbuilt.grounded hbuilt.hierarchy).mpr rfl
  have hclass : ∀ type, ∀ body ∈ graph.body? type, ∃ seen,
      graph.Answers name (.whole body []) ⟨graph.lookupInClass type name, seen⟩ := by
    intro type body hbody
    rw [lookupInClass, hbody]
    exact ⟨_, hanswers (.whole body [])⟩
  refine ⟨turnsTo_wellFounded hbuilt.grounded hbuilt.hierarchy, fun question => ?_,
    fun scope => ⟨_, hanswers (.whole scope [])⟩, fun scope => ⟨_, hanswers (.own scope [])⟩,
    hclass, hbuilt.outer_wellFounded, hbuilt.firstOffer_eq (graph.offered name),
    hbuilt.firstOffer_eq _, hbuilt.pathNames_eq, hbuilt.innermostSpace_eq⟩
  refine ⟨graph.boundedAnswer name question, hanswers question, fun walk hwalk => ?_⟩
  exact (answers_iff hbuilt.grounded hbuilt.hierarchy).mp hwalk

/-- Two namespaces that pull `f` in from each other, the first also from itself, and two diamonds
of classes on top of each other, with a base named twice.  The uppermost class pulls `f` in from
the lowest, so that bases and pull-ins run in a circle; `f` is declared outside of it all. -/
def tangledPulls : ScopeGraph :=
  Command.runAll
    [.enterSpace .root "Near", .enterSpace .root "Far", .newClass ⟨1⟩ "Top" [],
      .newClass ⟨1⟩ "Left" [.ofName "Near::Top", .ofName "Near::Top"],
      .newClass ⟨1⟩ "Right" [.ofName "Near::Top"],
      .newClass ⟨1⟩ "Middle" [.ofName "Near::Left", .ofName "Near::Right"],
      .newClass ⟨1⟩ "Low" [.ofName "Near::Left", .ofName "Near::Middle"],
      .pullIn ⟨1⟩ "f" ⟨1⟩, .pullIn ⟨1⟩ "f" ⟨2⟩, .pullIn ⟨2⟩ "f" ⟨1⟩, .pullIn ⟨3⟩ "f" ⟨7⟩,
      .newFunction .root "f" []] empty

/-- From the lowest class the look-up goes through all circles, finds nothing, and ends at the
root. -/
theorem tangledPulls_lookups_end :
    tangledPulls.Built ∧ tangledPulls.pulledFrom ⟨1⟩ "f" = [⟨1⟩, ⟨2⟩] ∧
      tangledPulls.pulledFrom ⟨2⟩ "f" = [⟨1⟩] ∧ tangledPulls.directBases ⟨4⟩ = [⟨3⟩, ⟨3⟩] ∧
      tangledPulls.Reaches "f" ⟨7⟩ ⟨3⟩ ∧ tangledPulls.Reaches "f" ⟨3⟩ ⟨7⟩ ∧
      (∃! walk, tangledPulls.Answers "f" (.whole ⟨7⟩ []) walk) ∧
      tangledPulls.lookup "f" ⟨7⟩ = tangledPulls.lookup "f" ⟨1⟩ ∧
      (tangledPulls.lookup "f" ⟨1⟩).map (·.1) = some .root := by
  have hbuilt : tangledPulls.Built := ⟨_, Or.inl rfl⟩
  obtain ⟨_, hanswers, _, _, _, _, hlookup, _⟩ := lookups_and_climbs_end hbuilt "f"
  have hup : tangledPulls.Reaches "f" ⟨7⟩ ⟨3⟩ :=
    .tail (.single (Or.inr (show ⟨4⟩ ∈ tangledPulls.directBases ⟨7⟩ by decide +kernel)))
      (Or.inr (by decide +kernel))
  refine ⟨hbuilt, by decide +kernel, by decide +kernel, by decide +kernel, hup,
    .single (Or.inl (by decide +kernel)), hanswers _, ?_, by decide +kernel⟩
  have hnothing : tangledPulls.offered "f" ⟨7⟩ = [] := by decide +kernel
  have houter : tangledPulls.outer? ⟨7⟩ = some ⟨1⟩ := by decide +kernel
  rw [hlookup, if_pos hnothing, houter, Option.bind_some]

end ScopeGraph
end CallResolution
