import Mathlib.Tactic
import CallResolution.Proofs.Scope.Keeping
import CallResolution.Proofs.Scope.Outwards

/-!
# Looking up free functions

A look-up of free functions goes outwards to the first scope that offers any.  It filters
what a scope offers, so a scope that declares members only is passed, as if they were not
there.  But a class with members only is not quite passed: its members have hidden the
free functions that its bases declare.

So the look-up differs from one in the graph without members exactly by such classes, at
least where they pull nothing in.
-/

namespace CallResolution

/-- Neither a method nor a member operator. -/
abbrev Signature.isFree (signature : Signature) : Bool :=
  !signature.isMember

namespace ScopeGraph

section FirstOffer

variable {graph : ScopeGraph} {offer other : ScopeId → List Signature} {start : ScopeId}

theorem firstOffer_congr (hsame : ∀ outer ∈ graph.enclosing start, offer outer = other outer) :
    graph.firstOffer offer start = graph.firstOffer other start := by
  unfold firstOffer
  generalize graph.enclosing start = chain at hsame ⊢
  induction chain with
  | nil => rfl
  | cons scope rest ih =>
      have hrest := ih fun outer houter => hsame outer (List.mem_cons_of_mem scope houter)
      rw [List.findSome?_cons, List.findSome?_cons, hsame scope List.mem_cons_self, hrest]

theorem firstOffer_keeping (graph : ScopeGraph) (keep : Signature → Bool)
    (offer : ScopeId → List Signature) (start : ScopeId) :
    (graph.keeping keep).firstOffer offer start = graph.firstOffer offer start :=
  (graph.sameFrame_keeping keep).firstOffer_eq offer start

/-- A look-up that is passed on by a scope does not come back to it. -/
theorem firstOffer_of_eq_nil (hbuilt : graph.Built) (hnothing : offer start = []) :
    (graph.firstOffer offer start).map Prod.fst ≠ some start := by
  intro hfound
  obtain ⟨⟨scope, set⟩, hfound, rfl⟩ := Option.map_eq_some_iff.mp hfound
  obtain ⟨_, hoffers, _⟩ := (firstOffer_eq_some_iff hbuilt).mp hfound
  exact hoffers hnothing

end FirstOffer

section Free

variable {graph : ScopeGraph} (hbuilt : graph.Built) {name : String}
include hbuilt

theorem lookupFree_of_unmasked {start : ScopeId}
    (hunmasked : ∀ outer ∈ graph.enclosing start, graph.Unmasked Signature.isFree name outer) :
    graph.lookupFree name start = (graph.keeping Signature.isFree).lookup name start := by
  rw [lookupFree, lookup, firstOffer_keeping]
  exact firstOffer_congr fun outer houter =>
    filter_offered_of_unmasked hbuilt (hunmasked outer houter)

theorem lookupFree_ne_of_masks {scope : ScopeId}
    (hmasks : graph.Masks Signature.isFree name scope) :
    (graph.lookupFree name scope).map Prod.fst ≠
      ((graph.keeping Signature.isFree).lookup name scope).map Prod.fst := by
  obtain ⟨hfiltered, hkept⟩ := hmasks.parts hbuilt
  rw [lookup, firstOffer_keeping, firstOffer_of_offers hkept]
  exact firstOffer_of_eq_nil hbuilt hfiltered

end Free

/-- The look-up of free functions, compared with a look-up in the graph without members.

Both give the same if no class is met that may mask its bases.  From a class that does mask
them they do not even stop at the same scope.  Where a class that may mask its bases pulls
nothing in, they give the same from everywhere exactly if no class masks its bases. -/
theorem lookupFree_eq_lookup_without_members {graph : ScopeGraph} (hbuilt : graph.Built)
    (name : String) :
    (∀ start,
      (∀ outer ∈ graph.enclosing start, graph.Unmasked Signature.isFree name outer) →
        graph.lookupFree name start = (graph.keeping Signature.isFree).lookup name start) ∧
    (∀ scope, graph.Masks Signature.isFree name scope →
      (graph.lookupFree name scope).map Prod.fst ≠
        ((graph.keeping Signature.isFree).lookup name scope).map Prod.fst) ∧
    ((∀ scope, graph.MayMask Signature.isFree name scope → graph.pulledFrom scope name = []) →
      ((∀ start,
          graph.lookupFree name start = (graph.keeping Signature.isFree).lookup name start) ↔
        ∀ scope, ¬ graph.Masks Signature.isFree name scope)) := by
  refine ⟨fun start => lookupFree_of_unmasked hbuilt,
    fun scope => lookupFree_ne_of_masks hbuilt, fun hpulled => ⟨?_, ?_⟩⟩
  · intro hsame scope hmasks
    exact lookupFree_ne_of_masks hbuilt hmasks (congrArg _ (hsame scope))
  · intro hnone start
    refine lookupFree_of_unmasked hbuilt fun outer _ lower _ hmay => ?_
    exact hnone lower (hmay.masks (hpulled lower hmay))

/-- Two classes with a method and a friend, and one that declares nothing. -/
def friendChain : ScopeGraph :=
  Command.runAll
    [.newClass ScopeId.root "Base" [], .newClass ScopeId.root "Derived" [.ofName "Base"],
      .newClass ScopeId.root "Last" [.ofName "Derived"],
      .newMethod (.ofName "Base") "f" false [], .newFunction ⟨1⟩ "f" [],
      .newMethod (.ofName "Derived") "f" false [], .newFunction ⟨2⟩ "f" []] empty

/-- The methods do not matter; `Last` finds the friend of `Derived` alone. -/
theorem friendChain_passes_members :
    friendChain.Built ∧
      (∀ start, friendChain.lookupFree "f" start =
        (friendChain.keeping Signature.isFree).lookup "f" start) ∧
      (friendChain.lookupFree "f" ⟨3⟩).map (fun found => (found.1, found.2.map (·.origin))) =
        some (⟨3⟩, [⟨2⟩]) := by
  have hbuilt : friendChain.Built := ⟨_, Or.inl rfl⟩
  have hpulls : ∀ edge ∈ friendChain.edges, edge.label ≠ .pullsIn "f" := by decide +kernel
  have hsize : friendChain.size = 4 := by decide +kernel
  have hscopes : ∀ index < friendChain.size, friendChain.offeredAlone "f" ⟨index⟩ = [] ∨
      ∃ signature ∈ friendChain.offeredAlone "f" ⟨index⟩, signature.isFree = true := by
    rw [hsize]
    decide +kernel
  obtain ⟨_, _, hiff⟩ := lookupFree_eq_lookup_without_members hbuilt "f"
  refine ⟨hbuilt, ?_, by decide +kernel⟩
  exact (hiff fun _ _ => pulledFrom_eq_nil hpulls).mpr (not_masks_of_scopes hscopes)

/-- A class with a friend, and a class derived from it with a method of the same name. -/
def maskedFriend : ScopeGraph :=
  Command.runAll
    [.newClass ScopeId.root "Base" [], .newClass ScopeId.root "Derived" [.ofName "Base"],
      .newFunction ⟨1⟩ "f" [], .newMethod (.ofName "Derived") "f" false []] empty

/-- From `Derived` no free function is found, because the method hides the friend. -/
theorem maskedFriend_not_found :
    maskedFriend.Built ∧ maskedFriend.lookupFree "f" ⟨2⟩ = none ∧
      ((maskedFriend.keeping Signature.isFree).lookup "f" ⟨2⟩).map
        (fun found => (found.1, found.2.map (·.origin))) = some (⟨2⟩, [⟨1⟩]) :=
  ⟨⟨_, Or.inl rfl⟩, by decide +kernel, by decide +kernel⟩

end ScopeGraph
end CallResolution
