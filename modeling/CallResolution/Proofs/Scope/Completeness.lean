import Mathlib.Tactic
import CallResolution.Proofs.Scope.Hiding
import CallResolution.Proofs.Scope.Outwards

/-!
# Everything visible is found

A scope that a walk meets again contributes nothing the second time.  What it contributed
the first time is not lost: results are merged on the way back and none is dropped, except
where a class passes an empty one over for what its bases offer.  So a look-up in a class,
in a namespace or outwards finds all that is visible from the scope it comes to.

It may find more than that; see `stackedDiamond`.
-/

namespace CallResolution
namespace ScopeGraph

section Completeness

variable {graph : ScopeGraph} {name : String} (hbuilt : graph.Built)
include hbuilt

/-- Leaving the bases out loses nothing of what is visible without them. -/
theorem mem_offeredAlone_of_visibleAlone (hlayered : graph.Layered name) {scope : ScopeId}
    {signature : Signature} (hvisible : signature ∈ visibleAlone hlayered scope) :
    signature ∈ graph.offeredAlone name scope := by
  obtain ⟨hself, hpulled, _⟩ := settled_visitOwn (graph.subset_visit name graph.walkBound)
    (fun lower _ => settles_visit hbuilt hlayered lower)
    (show SettledWithin hlayered [] scope by simp [SettledWithin])
  have hreports := hbuilt.storedOnce.reports_visitAlone name graph.walkBound scope []
  -- Nothing was marked before, so it is enough that the declaring scope is marked.
  refine (hreports.mem_iff signature).mpr ?_
  rcases hvisible with hdeclared | ⟨target, htarget, hbelow⟩
  · exact ⟨scope, hself, List.not_mem_nil, hdeclared⟩
  · obtain ⟨exposed, hexposes, hdeclared⟩ := (mem_visible_iff hlayered target signature).mp hbelow
    exact ⟨exposed, hpulled target htarget exposed hexposes, List.not_mem_nil, hdeclared⟩

/-- The copies in a namespace are copies of stored signatures, so none of them is mistaken
for another signature that is there already. -/
theorem mem_lookupInSpace_iff {space : ScopeId} {signature : Signature} :
    signature ∈ graph.lookupInSpace space name ↔
      signature ∈ graph.offeredAlone name space ∨ signature ∈ graph.associations space name := by
  rw [lookupInSpace, mergeUnique_eq_insertAll]
  apply KeyedSet.mem_insertAll_iff_mem_or
  refine hbuilt.storedOnce.keyInjective ?_
  intro other hother
  rcases List.mem_append.mp hother with hown | hcopy
  · exact (hbuilt.storedOnce.reports_visitAlone name _ space []).mem_stored hown
  · exact hbuilt.storedOnce.mem_stored_of_associations hcopy

end Completeness

/-- No visible declaration is lost.  What a scope sees is among what it offers, hence among
what a look-up in its class finds and what a look-up outwards finds if it stops there.  What a
namespace sees without bases, and the copies that it holds, are among what
argument-dependent look-up finds in it. -/
theorem visible_found_by_lookups {graph : ScopeGraph} {name : String} (hbuilt : graph.Built)
    (hacyclic : graph.Acyclic name) :
    (∀ scope, ∀ signature ∈ visible (hacyclic.layered hbuilt) scope,
      signature ∈ graph.offered name scope) ∧
    (∀ type body, graph.body? type = some body →
      ∀ signature ∈ visible (hacyclic.layered hbuilt) body,
        signature ∈ graph.lookupInClass type name) ∧
    (∀ start scope set, graph.lookup name start = some (scope, set) →
      ∀ signature ∈ visible (hacyclic.layered hbuilt) scope, signature ∈ set) ∧
    ∀ space signature,
      signature ∈ visibleAlone (hacyclic.layered hbuilt) space ∨
          signature ∈ graph.associations space name →
        signature ∈ graph.lookupInSpace space name := by
  have hoffered : ∀ scope, ∀ signature ∈ visible (hacyclic.layered hbuilt) scope,
      signature ∈ graph.offered name scope :=
    fun scope signature hvisible => mem_offered_of_visible hbuilt _ hvisible
  refine ⟨hoffered, ?_, ?_, ?_⟩
  · intro type body hbody signature hvisible
    rw [lookupInClass, hbody]
    exact hoffered body signature hvisible
  · intro start scope set hfound signature hvisible
    obtain ⟨_, _, rfl⟩ := (firstOffer_eq_some_iff hbuilt).mp hfound
    exact hoffered scope signature hvisible
  · rintro space signature (hvisible | hcopy)
    · exact (mem_lookupInSpace_iff hbuilt).mpr
        (Or.inl (mem_offeredAlone_of_visibleAlone hbuilt _ hvisible))
    · exact (mem_lookupInSpace_iff hbuilt).mpr (Or.inr hcopy)

/-- The function that a diamond of classes and a namespace share. -/
def sharedFunction : Signature :=
  ⟨"f", ⟨1⟩, .function, [], none⟩

/-- A function of a class that is also found through the namespace around the class. -/
def friendFunction : Signature :=
  ⟨"f", ⟨7⟩, .function, [⟨.ofName "Front::Other", .byValue, false, false⟩], none⟩

/-- A class that pulls `f` in from a namespace, a diamond on top of it, and a namespace that
pulls `f` in from the diamond and from the first namespace, with a class that has a friend. -/
def pulledDiamond : ScopeGraph :=
  Command.runAll
    [.enterSpace ScopeId.root "Shared", classCommand "Base" [], classCommand "Left" ["Base"],
      classCommand "Right" ["Base"], classCommand "Bottom" ["Left", "Right"],
      .enterSpace ScopeId.root "Front", .newClass ⟨6⟩ "Other" [],
      .declare ⟨sharedFunction, none⟩, .declare ⟨friendFunction, some ⟨6⟩⟩,
      .pullIn ⟨2⟩ "f" ⟨1⟩, .pullIn ⟨6⟩ "f" ⟨1⟩, .pullIn ⟨6⟩ "f" ⟨5⟩] empty

theorem built_pulledDiamond : pulledDiamond.Built :=
  ⟨_, Or.inl rfl⟩

theorem acyclic_pulledDiamond : pulledDiamond.Acyclic "f" :=
  built_pulledDiamond.hierarchy.acyclic_of_older_pulls (by decide +kernel)

/-- `Bottom` sees the function of the first namespace through its bases. -/
theorem visible_pulledDiamond :
    sharedFunction ∈ visible (acyclic_pulledDiamond.layered built_pulledDiamond) ⟨5⟩ := by
  have hsilent : ∀ index ∈ [3, 5], pulledDiamond.declaredAs ⟨index⟩ "f" = [] ∧
      pulledDiamond.pulledFrom ⟨index⟩ "f" = [] := by
    decide +kernel
  have halone : ∀ index ∈ [3, 5], ¬ (visibleAlone
      (acyclic_pulledDiamond.layered built_pulledDiamond) ⟨index⟩).Nonempty :=
    fun index hindex => not_visibleAlone_of_nothing (hsilent index hindex).1
      (hsilent index hindex).2
  have hleft : ⟨3⟩ ∈ pulledDiamond.directBases ⟨5⟩ := by decide +kernel
  have hbase : ⟨2⟩ ∈ pulledDiamond.directBases ⟨3⟩ := by decide +kernel
  have hshared : ⟨1⟩ ∈ pulledDiamond.pulledFrom ⟨2⟩ "f" := by decide +kernel
  refine (mem_visible_iff _ ⟨5⟩ sharedFunction).mpr ⟨⟨1⟩, ?_, by decide +kernel⟩
  exact .inherited (halone 5 (by simp)) hleft
    (.inherited (halone 3 (by simp)) hbase (.pulled hshared (.self ⟨1⟩)))

/-- The shared function is found from the diamond, and together with the friend from the
namespace, although the walk comes to it along several ways. -/
theorem pulledDiamond_loses_nothing :
    ∃ (hbuilt : pulledDiamond.Built) (hacyclic : pulledDiamond.Acyclic "f"),
      sharedFunction ∈ visible (hacyclic.layered hbuilt) ⟨5⟩ ∧
      sharedFunction ∈ visibleAlone (hacyclic.layered hbuilt) ⟨6⟩ ∧
      friendFunction ∈ pulledDiamond.associations ⟨6⟩ "f" ∧
      sharedFunction ∈ pulledDiamond.lookupInClass (.ofName "Bottom") "f" ∧
      (∃ set, pulledDiamond.lookup "f" ⟨5⟩ = some (⟨5⟩, set) ∧ sharedFunction ∈ set) ∧
      sharedFunction ∈ pulledDiamond.lookupInSpace ⟨6⟩ "f" ∧
      friendFunction ∈ pulledDiamond.lookupInSpace ⟨6⟩ "f" := by
  obtain ⟨hoffered, hclass, houtwards, hspace⟩ :=
    visible_found_by_lookups built_pulledDiamond acyclic_pulledDiamond
  have hbottom := visible_pulledDiamond
  have hfront : sharedFunction ∈
      visibleAlone (acyclic_pulledDiamond.layered built_pulledDiamond) ⟨6⟩ :=
    Or.inr ⟨⟨5⟩, by decide +kernel, hbottom⟩
  have hcopy : friendFunction ∈ pulledDiamond.associations ⟨6⟩ "f" := by decide +kernel
  have hstops : pulledDiamond.lookup "f" ⟨5⟩ = some (⟨5⟩, pulledDiamond.offered "f" ⟨5⟩) :=
    firstOffer_of_offers (List.ne_nil_of_mem (hoffered ⟨5⟩ _ hbottom))
  exact ⟨built_pulledDiamond, acyclic_pulledDiamond, hbottom, hfront, hcopy,
    hclass _ ⟨5⟩ (by decide +kernel) _ hbottom,
    ⟨_, hstops, houtwards ⟨5⟩ ⟨5⟩ _ hstops _ hbottom⟩,
    hspace ⟨6⟩ _ (Or.inl hfront), hspace ⟨6⟩ _ (Or.inr hcopy)⟩

end ScopeGraph
end CallResolution
