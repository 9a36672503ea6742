import Mathlib.Data.List.Pairwise
import Mathlib.Tactic
import CallResolution.Proofs.Scope.Settling

/-!
# Where a walk respects hiding

A scope that a walk meets for the second time offers nothing of its own, and a class that
offers nothing of its own passes the question on to its bases.  So a base that the class
hides is asked after all, and what it declares comes out next to what hides it.

This happens exactly if the walk marks a scope that declares the name and is not exposed.
It cannot happen where no class that hides its bases shares an exposed scope with an
earlier branch of the walk; there a look-up finds what is visible and nothing else.
-/

namespace CallResolution
namespace ScopeGraph

/-- The scopes that a look-up from this scope marks. -/
def markedFrom (graph : ScopeGraph) (name : String) (scope : ScopeId) : List ScopeId :=
  (graph.visit name graph.walkBound scope []).seen

section Hiding

variable {graph : ScopeGraph} {name : String} (hlayered : graph.Layered name)

/-- The class sees something without its bases, so its bases are hidden. -/
def Hides (scope : ScopeId) : Prop :=
  (visibleAlone hlayered scope).Nonempty ∧ graph.directBases scope ≠ []

open Classical in
/-- The scopes that exposure goes on to, in the order in which a walk visits them. -/
noncomputable def branches (scope : ScopeId) : List ScopeId :=
  graph.pulledFrom scope name ++
    if (visibleAlone hlayered scope).Nonempty then [] else graph.directBases scope

/-- What a class that hides its bases exposes within the later branch, the earlier branch
does not expose. -/
def Apart (earlier later : ScopeId) : Prop :=
  ∀ hider, Exposes hlayered later hider → Hides hlayered hider →
    ∀ shared, Exposes hlayered hider shared → ¬ Exposes hlayered earlier shared

/-- The branches are apart wherever exposure leads. -/
def Unshared (scope : ScopeId) : Prop :=
  ∀ exposed, Exposes hlayered scope exposed → (branches hlayered exposed).Pairwise (Apart hlayered)

/-- Nothing that a hiding class within reach exposes is marked yet. -/
def Clean (marks : List ScopeId) (scope : ScopeId) : Prop :=
  ∀ hider, Exposes hlayered scope hider → Hides hlayered hider →
    ∀ shared, Exposes hlayered hider shared → shared ∉ marks

variable {hlayered}

theorem Unshared.of_exposes {scope exposed : ScopeId} (hunshared : Unshared hlayered scope)
    (hexposes : Exposes hlayered scope exposed) : Unshared hlayered exposed :=
  fun other hother => hunshared other (hexposes.trans hlayered hother)

theorem Clean.of_exposes {marks : List ScopeId} {scope exposed : ScopeId}
    (hclean : Clean hlayered marks scope) (hexposes : Exposes hlayered scope exposed) :
    Clean hlayered marks exposed :=
  fun hider hhider => hclean hider (hexposes.trans hlayered hhider)

/-- A visit of a clean scope only marks what the scope exposes. -/
def Restrained (hlayered : graph.Layered name) (visit : ScopeId → List ScopeId → Walk)
    (scope : ScopeId) : Prop :=
  ∀ seen, Clean hlayered seen scope → SettledWithin hlayered seen scope →
    ∀ marked ∈ (visit scope seen).seen, marked ∈ seen ∨ Exposes hlayered scope marked

theorem Clean.cons {seen : List ScopeId} {scope lower : ScopeId}
    (hclean : Clean hlayered seen scope) (hfeeds : graph.Feeds name scope lower)
    (hexposes : Exposes hlayered scope lower) : Clean hlayered (scope :: seen) lower := by
  intro hider hhider hhides shared hshared hmarked
  rcases List.mem_cons.mp hmarked with rfl | hmarked
  · exact hlayered.not_reaches hfeeds ((hhider.trans hlayered hshared).reaches hlayered)
  · exact hclean.of_exposes hexposes hider hhider hhides shared hshared hmarked

section Walks

variable {visit : ScopeId → List ScopeId → Walk}
  (hgrows : ∀ scope seen, seen ⊆ (visit scope seen).seen)
include hgrows

/-- The later branches stay clean while the earlier ones are visited. -/
theorem restrained_visitEach {targets : List ScopeId}
    (hsettles : ∀ target ∈ targets, Settles hlayered visit target)
    (hrestrained : ∀ target ∈ targets, Restrained hlayered visit target)
    (hapart : targets.Pairwise (Apart hlayered)) (found : List Signature) {seen : List ScopeId}
    (hclean : ∀ target ∈ targets, Clean hlayered seen target)
    (hwithin : ∀ target ∈ targets, SettledWithin hlayered seen target) :
    ∀ marked ∈ (visitEach visit targets ⟨found, seen⟩).seen,
      marked ∈ seen ∨ ∃ target ∈ targets, Exposes hlayered target marked := by
  induction targets generalizing found seen with
  | nil => exact fun marked hmarked => Or.inl hmarked
  | cons target rest ih =>
      obtain ⟨hfirst, hrest⟩ := List.pairwise_cons.mp hapart
      have hnew := hrestrained target List.mem_cons_self seen
        (hclean target List.mem_cons_self) (hwithin target List.mem_cons_self)
      have hcleanRest : ∀ next ∈ rest, Clean hlayered (visit target seen).seen next := by
        intro next hnext hider hhider hhides shared hshared hmarked
        rcases hnew shared hmarked with hold | hexposes
        · exact hclean next (List.mem_cons_of_mem target hnext) hider hhider hhides shared
            hshared hold
        · exact hfirst next hnext hider hhider hhides shared hshared hexposes
      have hlater := ih
        (fun next hnext => hsettles next (List.mem_cons_of_mem target hnext))
        (fun next hnext => hrestrained next (List.mem_cons_of_mem target hnext)) hrest
        (mergeUnique found (visit target seen).found) hcleanRest
        (fun next hnext => (hsettles target List.mem_cons_self).settledWithin hgrows
          (hwithin target List.mem_cons_self) (hwithin next (List.mem_cons_of_mem target hnext)))
      intro marked hmarked
      rcases hlater marked hmarked with hmarked | ⟨next, hnext, hexposes⟩
      · rcases hnew marked hmarked with hold | hexposes
        · exact Or.inl hold
        · exact Or.inr ⟨target, List.mem_cons_self, hexposes⟩
      · exact Or.inr ⟨next, List.mem_cons_of_mem target hnext, hexposes⟩

variable {scope : ScopeId} {seen : List ScopeId}
  (hsettles : ∀ lower, graph.Feeds name scope lower → Settles hlayered visit lower)
  (hrestrained : ∀ lower, graph.Feeds name scope lower → Exposes hlayered scope lower →
    Restrained hlayered visit lower)
  (hapart : (branches hlayered scope).Pairwise (Apart hlayered))
  (hclean : Clean hlayered seen scope) (hwithin : SettledWithin hlayered seen scope)
include hsettles hrestrained hapart hclean hwithin

theorem restrained_visitOwn :
    ∀ marked ∈ (graph.visitOwn name visit scope seen).seen, marked ∈ seen ∨ marked = scope ∨
      ∃ target ∈ graph.pulledFrom scope name, Exposes hlayered target marked := by
  unfold visitOwn
  split
  · exact fun marked hmarked => Or.inl hmarked
  · intro marked hmarked
    have hexposes : ∀ target ∈ graph.pulledFrom scope name, Exposes hlayered scope target :=
      fun target hpulled => .pulled hpulled (.self target)
    have hnew := restrained_visitEach hgrows
      (fun target hpulled => hsettles target (Or.inl hpulled))
      (fun target hpulled => hrestrained target (Or.inl hpulled) (hexposes target hpulled))
      (List.pairwise_append.mp hapart).1 (graph.declaredAs scope name)
      (fun target hpulled => hclean.cons (Or.inl hpulled) (hexposes target hpulled))
      (fun target hpulled => hwithin.cons (Or.inl hpulled)) marked hmarked
    rcases hnew with hmarked | hpulled
    · rcases List.mem_cons.mp hmarked with hself | hold
      · exact Or.inr (Or.inl hself)
      · exact Or.inl hold
    · exact Or.inr (Or.inr hpulled)

variable {accepts : Signature → Prop} (hstored : StoredOnce accepts graph)
  (hreports : ∀ scope seen, Reports graph name seen (visit scope seen))
include hstored hreports

omit hrestrained hapart in
/-- A clean class that hides its bases is seen to do so. -/
theorem not_hides_of_found_eq_nil
    (hfound : (graph.visitOwn name visit scope seen).found = []) : ¬ Hides hlayered scope := by
  intro hhides
  obtain ⟨hself, hpulled, _⟩ := settled_visitOwn hgrows hsettles hwithin
  have hdeclares : ∃ exposed ∈ (graph.visitOwn name visit scope seen).seen,
      Exposes hlayered scope exposed ∧ ∃ signature, signature ∈ graph.declaredAs exposed name := by
    obtain ⟨signature, hdeclared | ⟨target, htarget, hvisible⟩⟩ := hhides.1
    · exact ⟨scope, hself, .self scope, signature, hdeclared⟩
    · obtain ⟨exposed, hexposes, hdeclared⟩ :=
        (mem_visible_iff hlayered target signature).mp hvisible
      exact ⟨exposed, hpulled target htarget exposed hexposes, .pulled htarget hexposes,
        signature, hdeclared⟩
  -- The scope is clean, so the exposed declaration is new to the walk and is reported.
  obtain ⟨exposed, hmarked, hexposes, signature, hdeclared⟩ := hdeclares
  have hnew : exposed ∉ seen := hclean scope (.self scope) hhides exposed hexposes
  have hmem := ((reports_visitOwn hstored hgrows hreports scope seen).mem_iff signature).mpr
    ⟨exposed, hmarked, hnew, hdeclared⟩
  rw [hfound] at hmem
  cases hmem

omit hstored hreports in
/-- The bases stay clean while the scope itself is visited, if it does not hide them. -/
theorem clean_base (halone : ¬ (visibleAlone hlayered scope).Nonempty) :
    ∀ base ∈ graph.directBases scope,
      Clean hlayered (graph.visitOwn name visit scope seen).seen base := by
  intro base hbase hider hhider hhides shared hshared hmarked
  have hown := restrained_visitOwn hgrows hsettles hrestrained hapart hclean hwithin
  rw [branches, if_neg halone, List.pairwise_append] at hapart
  -- The mark was there before, is the scope's own, or was made in a pulled-in branch.
  rcases hown shared hmarked with hold | rfl | ⟨target, hpulled, hearlier⟩
  · exact hclean.of_exposes (.inherited halone hbase (.self base)) hider hhider hhides shared
      hshared hold
  · exact hlayered.not_reaches (Or.inr hbase)
      ((hhider.trans hlayered hshared).reaches hlayered)
  · exact hapart.2.2 target hpulled base hbase hider hhider hhides shared hshared hearlier

theorem restrained_visitBy :
    ∀ marked ∈ (graph.visitBy name visit scope seen).seen,
      marked ∈ seen ∨ Exposes hlayered scope marked := by
  have hown := restrained_visitOwn hgrows hsettles hrestrained hapart hclean hwithin
  have hexposed : ∀ marked ∈ (graph.visitOwn name visit scope seen).seen,
      marked ∈ seen ∨ Exposes hlayered scope marked := by
    intro marked hmarked
    rcases hown marked hmarked with hold | rfl | ⟨target, hpulled, hexposes⟩
    · exact Or.inl hold
    · exact Or.inr (.self _)
    · exact Or.inr (.pulled hpulled hexposes)
  unfold visitBy
  split
  · rename_i hempty
    have hhides := not_hides_of_found_eq_nil hgrows hsettles hclean hwithin hstored hreports
      (List.isEmpty_iff.mp hempty)
    by_cases hbases : graph.directBases scope = []
    · rw [hbases]
      exact hexposed
    · have halone : ¬ (visibleAlone hlayered scope).Nonempty := fun h => hhides ⟨h, hbases⟩
      have hexposes : ∀ base ∈ graph.directBases scope, Exposes hlayered scope base :=
        fun base hbase => .inherited halone hbase (.self base)
      have hcleanBase := clean_base hgrows hsettles hrestrained hapart hclean hwithin halone
      rw [branches, if_neg halone, List.pairwise_append] at hapart
      have hnew := restrained_visitEach hgrows
        (fun base hbase => hsettles base (Or.inr hbase))
        (fun base hbase => hrestrained base (Or.inr hbase) (hexposes base hbase)) hapart.2.1 []
        hcleanBase (fun base hbase => settledWithin_visitOwn hgrows hsettles hwithin hbase)
      intro marked hmarked
      rcases hnew marked hmarked with hmarked | ⟨base, hbase, hinherits⟩
      · exact hexposed marked hmarked
      · exact Or.inr (.inherited halone hbase hinherits)
  · exact hexposed

end Walks

theorem restrained_visit (hbuilt : graph.Built) {scope : ScopeId}
    (hunshared : Unshared hlayered scope) :
    Restrained hlayered (graph.visit name graph.walkBound) scope := by
  induction scope using hlayered.induction with
  | _ scope ih =>
      intro seen hclean hwithin
      rw [visit_walkBound hbuilt.grounded hbuilt.hierarchy]
      exact restrained_visitBy (graph.subset_visit name graph.walkBound)
        (fun lower _ => settles_visit hbuilt hlayered lower)
        (fun lower hfeeds hexposes => ih lower hfeeds (hunshared.of_exposes hexposes))
        (hunshared scope (.self scope)) hclean hwithin hbuilt.storedOnce
        (hbuilt.storedOnce.reports_visit name graph.walkBound)

end Hiding

/-! ## Look-ups -/

section Lookup

variable {graph : ScopeGraph} {name : String} (hbuilt : graph.Built)
include hbuilt

theorem mem_offered_iff (scope : ScopeId) (signature : Signature) :
    signature ∈ graph.offered name scope ↔
      ∃ marked ∈ graph.markedFrom name scope, signature ∈ graph.declaredAs marked name := by
  have hreports := hbuilt.storedOnce.reports_visit name graph.walkBound scope []
  rw [offered, hreports.mem_iff]
  simp [markedFrom]

theorem mem_markedFrom_of_exposes (hlayered : graph.Layered name) {scope exposed : ScopeId}
    (hexposes : Exposes hlayered scope exposed) : exposed ∈ graph.markedFrom name scope :=
  (settles_visit hbuilt hlayered scope [] (by simp [SettledWithin])).1 exposed hexposes

theorem mem_offered_of_visible (hlayered : graph.Layered name) {scope : ScopeId}
    {signature : Signature} (hvisible : signature ∈ visible hlayered scope) :
    signature ∈ graph.offered name scope := by
  obtain ⟨exposed, hexposes, hdeclared⟩ := (mem_visible_iff hlayered scope signature).mp hvisible
  exact (mem_offered_iff hbuilt scope signature).mpr
    ⟨exposed, mem_markedFrom_of_exposes hbuilt hlayered hexposes, hdeclared⟩

theorem visible_of_mem_offered {hlayered : graph.Layered name} {scope : ScopeId}
    (hunshared : Unshared hlayered scope) {signature : Signature}
    (hoffered : signature ∈ graph.offered name scope) : signature ∈ visible hlayered scope := by
  obtain ⟨marked, hmarked, hdeclared⟩ := (mem_offered_iff hbuilt scope signature).mp hoffered
  have hexposes := restrained_visit hbuilt hunshared [] (by simp [Clean]) (by simp [SettledWithin])
    marked hmarked
  rcases hexposes with hnone | hexposes
  · cases hnone
  · exact (mem_visible_iff hlayered scope signature).mpr ⟨marked, hexposes, hdeclared⟩

end Lookup

/-- A look-up finds nothing hidden exactly if the scopes it marks that declare the name
are all exposed.  So it is where the branches are apart, and there it finds what is
visible and nothing else. -/
theorem offered_respects_hiding_iff {graph : ScopeGraph} {name : String}
    (hbuilt : graph.Built) (hacyclic : graph.Acyclic name) (scope : ScopeId) :
    ((∀ signature ∈ graph.offered name scope,
        signature ∈ visible (hacyclic.layered hbuilt) scope) ↔
      ∀ marked ∈ graph.markedFrom name scope, graph.declaredAs marked name ≠ [] →
        Exposes (hacyclic.layered hbuilt) scope marked) ∧
    (Unshared (hacyclic.layered hbuilt) scope →
      ∀ signature, signature ∈ graph.offered name scope ↔
        signature ∈ visible (hacyclic.layered hbuilt) scope) := by
  refine ⟨⟨?_, ?_⟩, ?_⟩
  · intro hwithin marked hmarked hdeclares
    obtain ⟨signature, hdeclared⟩ := List.exists_mem_of_ne_nil _ hdeclares
    have hoffered := (mem_offered_iff hbuilt scope signature).mpr ⟨marked, hmarked, hdeclared⟩
    obtain ⟨exposed, hexposes, hthere⟩ :=
      (mem_visible_iff _ scope signature).mp (hwithin signature hoffered)
    -- A signature is declared in one scope only.
    have hsame : exposed = marked :=
      (hbuilt.storedOnce.origin_eq hthere).symm.trans (hbuilt.storedOnce.origin_eq hdeclared)
    exact hsame ▸ hexposes
  · intro hexposed signature hoffered
    obtain ⟨marked, hmarked, hdeclared⟩ := (mem_offered_iff hbuilt scope signature).mp hoffered
    exact (mem_visible_iff _ scope signature).mpr
      ⟨marked, hexposed marked hmarked (List.ne_nil_of_mem hdeclared), hdeclared⟩
  · intro hunshared signature
    exact ⟨visible_of_mem_offered hbuilt hunshared, mem_offered_of_visible hbuilt _⟩

/-! ## A hiding class alone in its branch, and one that two branches share -/

section Cases

variable {graph : ScopeGraph} {name : String}

/-- Bases are older than their classes; where pull-ins come from older scopes too, nothing
runs in a circle. -/
theorem Hierarchy.acyclic_of_older_pulls (hhierarchy : graph.Hierarchy)
    (hpulls : ∀ edge ∈ graph.edges, edge.label = .pullsIn name →
      edge.target.index < edge.source.index) : graph.Acyclic name := by
  have holder : ∀ upper lower, Relation.TransGen (graph.Feeds name) upper lower →
      lower.index < upper.index := by
    have hstep : ∀ upper lower, graph.Feeds name upper lower → lower.index < upper.index := by
      rintro upper lower (hpulled | hbase)
      · exact hpulls _ (mem_pulledFrom_iff.mp hpulled) rfl
      · exact directBases_older hhierarchy hbase
    intro upper lower hpath
    induction hpath with
    | single hfeeds => exact hstep _ _ hfeeds
    | tail _ hfeeds ih => exact (hstep _ _ hfeeds).trans ih
  intro scope hcircle
  exact Nat.lt_irrefl _ (holder scope scope hcircle)

/-- Bases alone never run in a circle. -/
theorem Hierarchy.acyclic_of_no_pulls (hhierarchy : graph.Hierarchy)
    (hpulls : ∀ edge ∈ graph.edges, edge.label ≠ .pullsIn name) : graph.Acyclic name :=
  hhierarchy.acyclic_of_older_pulls fun edge hedge hlabel => absurd hlabel (hpulls edge hedge)

variable {hlayered : graph.Layered name} {scope exposed : ScopeId}

theorem not_visibleAlone_of_nothing (hdeclared : graph.declaredAs scope name = [])
    (hpulled : graph.pulledFrom scope name = []) :
    ¬ (visibleAlone hlayered scope).Nonempty := by
  rintro ⟨signature, hmem⟩
  simp [visibleAlone, hdeclared, hpulled] at hmem

theorem visibleAlone_of_declares (hdeclares : graph.declaredAs scope name ≠ []) :
    (visibleAlone hlayered scope).Nonempty := by
  obtain ⟨signature, hdeclared⟩ := List.exists_mem_of_ne_nil _ hdeclares
  exact ⟨signature, Or.inl hdeclared⟩

/-- A class that declares the name exposes none of its bases. -/
theorem eq_of_exposes_of_declares (hdeclares : graph.declaredAs scope name ≠ [])
    (hpulled : graph.pulledFrom scope name = []) (hexposes : Exposes hlayered scope exposed) :
    exposed = scope := by
  cases hexposes with
  | self => rfl
  | pulled htarget => simp [hpulled] at htarget
  | inherited halone => exact absurd (visibleAlone_of_declares hdeclares) halone

/-- The branches of a class are apart if they are its bases and each of these declares the name
itself, whatever the bases hide. -/
theorem unshared_of_declaring_bases (hdeclared : graph.declaredAs scope name = [])
    (hpulled : graph.pulledFrom scope name = []) (hdistinct : (graph.directBases scope).Nodup)
    (hbases : ∀ base ∈ graph.directBases scope,
      graph.declaredAs base name ≠ [] ∧ graph.pulledFrom base name = []) :
    Unshared hlayered scope := by
  have honly : ∀ base ∈ graph.directBases scope, ∀ exposed,
      Exposes hlayered base exposed → exposed = base :=
    fun base hbase _ => eq_of_exposes_of_declares (hbases base hbase).1 (hbases base hbase).2
  intro exposed hexposes
  cases hexposes with
  | self =>
      rw [branches, hpulled, if_neg (not_visibleAlone_of_nothing hdeclared hpulled),
        List.nil_append]
      refine hdistinct.imp_of_mem fun hearlier hlater hne hider hhider _ shared hshared hboth => ?_
      -- The later branch exposes itself only, and so does the earlier one.
      obtain rfl := honly _ hlater hider hhider
      obtain rfl := honly _ hlater shared hshared
      exact hne (honly _ hearlier _ hboth).symm
  | pulled htarget => simp [hpulled] at htarget
  | inherited _ hbase hinherits =>
      obtain rfl := honly _ hbase exposed hinherits
      rw [branches, (hbases _ hbase).2, if_pos (visibleAlone_of_declares (hbases _ hbase).1)]
      exact List.Pairwise.nil

theorem not_exposes_of_bases (hpulled : graph.pulledFrom scope name = [])
    (hne : exposed ≠ scope)
    (hbases : ∀ base ∈ graph.directBases scope, ¬ Exposes hlayered base exposed) :
    ¬ Exposes hlayered scope exposed := by
  intro hexposes
  cases hexposes with
  | self => exact hne rfl
  | pulled htarget => simp [hpulled] at htarget
  | inherited _ hbase hexposes => exact hbases _ hbase hexposes

end Cases

/-- A class in the root namespace, with its bases. -/
def classCommand (name : String) (bases : List String) : Command :=
  .newClass ScopeId.root name (bases.map Fingerprint.ofName)

/-- A member function without parameters. -/
def memberCommand (type name : String) : Command :=
  .newMethod (Fingerprint.ofName type) name false []

/-- A class `D` with two bases: `X`, and `B`, which hides the `f` of its own base `A`. -/
def hidingBranch : ScopeGraph :=
  Command.runAll
    [classCommand "A" [], classCommand "B" ["A"], classCommand "X" [],
      classCommand "D" ["X", "B"], memberCommand "A" "f", memberCommand "B" "f",
      memberCommand "X" "f"] empty

theorem built_hidingBranch : hidingBranch.Built :=
  ⟨_, Or.inl rfl⟩

theorem acyclic_hidingBranch : hidingBranch.Acyclic "f" :=
  built_hidingBranch.hierarchy.acyclic_of_no_pulls (by decide +kernel)

/-- `D` offers what is visible: the `f` of `X` and of `B`.  That of `A` is a declaration within
reach, but it is hidden, and it is not offered. -/
theorem hidingBranch_offers_visible :
    ∃ (hbuilt : hidingBranch.Built) (hacyclic : hidingBranch.Acyclic "f"),
      Hides (hacyclic.layered hbuilt) ⟨2⟩ ∧ ⟨1⟩ ∈ hidingBranch.directBases ⟨2⟩ ∧
      (hidingBranch.declaredAs ⟨1⟩ "f").length = 1 ∧
      Unshared (hacyclic.layered hbuilt) ⟨4⟩ ∧
      (hidingBranch.offered "f" ⟨4⟩).map (·.origin) = [⟨3⟩, ⟨2⟩] ∧
      ∀ signature, signature ∈ hidingBranch.offered "f" ⟨4⟩ ↔
        signature ∈ visible (hacyclic.layered hbuilt) ⟨4⟩ := by
  have hunshared : Unshared (acyclic_hidingBranch.layered built_hidingBranch) ⟨4⟩ :=
    unshared_of_declaring_bases (by decide +kernel) (by decide +kernel) (by decide +kernel)
      (by decide +kernel)
  exact ⟨built_hidingBranch, acyclic_hidingBranch,
    ⟨visibleAlone_of_declares (by decide +kernel), by decide +kernel⟩, by decide +kernel,
    by decide +kernel, hunshared, by decide +kernel,
    (offered_respects_hiding_iff built_hidingBranch acyclic_hidingBranch ⟨4⟩).2 hunshared⟩

/-- A diamond on top of a class `B` that hides the `f` of its own base `A`. -/
def stackedDiamond : ScopeGraph :=
  Command.runAll
    [classCommand "A" [], classCommand "B" ["A"], classCommand "C" ["B"],
      classCommand "D" ["B"], classCommand "E" ["C", "D"],
      memberCommand "A" "f", memberCommand "B" "f"] empty

theorem built_stackedDiamond : stackedDiamond.Built :=
  ⟨_, Or.inl rfl⟩

theorem acyclic_stackedDiamond : stackedDiamond.Acyclic "f" :=
  built_stackedDiamond.hierarchy.acyclic_of_no_pulls (by decide +kernel)

/-- `B` hides `A` from every class above it. -/
theorem not_exposes_stackedDiamond :
    ¬ Exposes (acyclic_stackedDiamond.layered built_stackedDiamond) ⟨5⟩ ⟨1⟩ := by
  have hhider : ¬ Exposes (acyclic_stackedDiamond.layered built_stackedDiamond) ⟨2⟩ ⟨1⟩ := by
    intro hexposes
    have hsame := eq_of_exposes_of_declares (by decide +kernel) (by decide +kernel) hexposes
    cases hsame
  have hsides : ∀ side ∈ stackedDiamond.directBases ⟨5⟩,
      stackedDiamond.pulledFrom side "f" = [] ∧ ⟨1⟩ ≠ side ∧
        ∀ base ∈ stackedDiamond.directBases side, base = ⟨2⟩ := by
    decide +kernel
  refine not_exposes_of_bases (by decide +kernel) (by decide) ?_
  intro side hside
  obtain ⟨hpulled, hne, hbases⟩ := hsides side hside
  refine not_exposes_of_bases hpulled hne ?_
  intro base hbase
  rw [hbases base hbase]
  exact hhider

/-- The `f` of `A` is offered by `E` although `B` hides it. -/
theorem stackedDiamond_offers_hidden :
    ∃ (hbuilt : stackedDiamond.Built) (hacyclic : stackedDiamond.Acyclic "f"),
      ¬ ∀ signature ∈ stackedDiamond.offered "f" ⟨5⟩,
        signature ∈ visible (hacyclic.layered hbuilt) ⟨5⟩ := by
  refine ⟨built_stackedDiamond, acyclic_stackedDiamond, fun hwithin => ?_⟩
  have hleak : ∃ signature ∈ stackedDiamond.offered "f" ⟨5⟩, signature.origin = ⟨1⟩ := by
    decide +kernel
  obtain ⟨signature, hoffered, horigin⟩ := hleak
  obtain ⟨exposed, hexposes, hdeclared⟩ :=
    (mem_visible_iff _ ⟨5⟩ signature).mp (hwithin signature hoffered)
  rw [← built_stackedDiamond.storedOnce.origin_eq hdeclared, horigin] at hexposes
  exact not_exposes_stackedDiamond hexposes

end ScopeGraph
end CallResolution
