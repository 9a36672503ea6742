import Mathlib.Tactic
import CallResolution.Conversion.Route

/-!
# Selecting among user-defined routes

User-defined routes compete on the step after their rule: none at all is best, then a
promotion, then any other standard step.  `Route.foremost` keeps the routes that no route
exceeds.  One foremost route is selected, several are ambiguous, and there is none only where
there is no route.
-/

namespace CallResolution

namespace Rank

theorem level_injective {a b : Rank} (hlevel : a.level = b.level) : a = b := by
  cases a <;> cases b <;> simp [level] at hlevel ⊢

theorem level_le_best_left (a b : Rank) : a.level ≤ (best a b).level := by
  unfold best
  split
  · assumption
  · exact Nat.le_refl _

theorem level_le_best_right (a b : Rank) : b.level ≤ (best a b).level := by
  unfold best
  split
  · exact Nat.le_refl _
  · rename_i hle
    exact Nat.le_of_not_le hle

theorem level_le_exact (rank : Rank) : rank.level ≤ exact.level := by
  cases rank <;> decide

/-- The best of several ranks is at least as good as each, and as the one to start with. -/
theorem level_le_foldl_best (ranks : List Rank) (start : Rank) :
    ∀ rank ∈ start :: ranks, rank.level ≤ (ranks.foldl best start).level := by
  induction ranks generalizing start with
  | nil => simp
  | cons first rest ih =>
      intro rank hrank
      rw [List.foldl_cons]
      have hnext := ih (best start first)
      rcases List.mem_cons.mp hrank with rfl | hrank
      · exact (level_le_best_left rank first).trans (hnext _ List.mem_cons_self)
      · rcases List.mem_cons.mp hrank with rfl | hrank
        · exact (level_le_best_right start rank).trans (hnext _ List.mem_cons_self)
        · exact hnext rank (List.mem_cons_of_mem _ hrank)

theorem foldl_best_mem (ranks : List Rank) (start : Rank) :
    ranks.foldl best start ∈ start :: ranks := by
  induction ranks generalizing start with
  | nil => exact List.mem_cons_self
  | cons first rest ih =>
      rw [List.foldl_cons]
      rcases List.mem_cons.mp (ih (best start first)) with hstart | hrest
      · rw [hstart, best]
        split
        · exact List.mem_cons_of_mem _ List.mem_cons_self
        · exact List.mem_cons_self
      · exact List.mem_cons_of_mem _ (List.mem_cons_of_mem _ hrest)

end Rank

namespace Route

/-- How good the end of a route is: a rule that lands on the target is best, then a promotion
after it, then any other standard step. -/
def tailLevel : Route → Nat
  | .userThenStandard _ ⟨.configured .promotion, _, _⟩ => 1
  | .userThenStandard _ _ => 0
  | _ => 2

/-- The routes at the greatest level, in their order. -/
def foremost (routes : List Route) : List Route :=
  routes.filter fun route => ∀ rival ∈ routes, rival.tailLevel ≤ route.tailLevel

theorem level_tailRank (route : Route) : route.tailRank.level = route.tailLevel + 3 := by
  match route with
  | .trivial | .standardOnly _ | .userOnly _ => rfl
  | .userThenStandard _ ⟨.configured .promotion, _, _⟩ => rfl
  | .userThenStandard _ ⟨.configured .standard, _, _⟩ => rfl
  | .userThenStandard _ ⟨.derivedToBase, _, _⟩ => rfl

/-- Some route has the best rank, since every route has a better one than the rank to start
with. -/
theorem exists_tailRank_eq_best {routes : List Route} (hroutes : routes ≠ []) :
    ∃ route ∈ routes,
      route.tailRank = (routes.map tailRank).foldl Rank.best .inapplicable := by
  obtain ⟨first, rest, rfl⟩ := List.exists_cons_of_ne_nil hroutes
  have hmem := Rank.foldl_best_mem ((first :: rest).map tailRank) .inapplicable
  have hle := Rank.level_le_foldl_best ((first :: rest).map tailRank) .inapplicable
    first.tailRank (by simp)
  rcases List.mem_cons.mp hmem with hstart | hmem
  · rw [hstart, level_tailRank] at hle
    simp [Rank.level] at hle
  · obtain ⟨route, hroute, hrank⟩ := List.mem_map.mp hmem
    exact ⟨route, hroute, hrank⟩

/-- The routes of the best rank are the foremost ones. -/
theorem filter_tailRank_eq_foremost (routes : List Route) :
    routes.filter (fun route =>
        route.tailRank = (routes.map tailRank).foldl Rank.best .inapplicable) =
      foremost routes := by
  apply List.filter_congr
  intro route hroute
  obtain ⟨winner, hwinner, hbest⟩ := exists_tailRank_eq_best (List.ne_nil_of_mem hroute)
  have hbound : ∀ rival ∈ routes, rival.tailLevel ≤ winner.tailLevel := by
    intro rival hrival
    have hle := Rank.level_le_foldl_best (routes.map tailRank) .inapplicable rival.tailRank
      (List.mem_cons_of_mem _ (List.mem_map_of_mem hrival))
    rw [← hbest, level_tailRank, level_tailRank] at hle
    omega
  rw [← hbest, decide_eq_decide]
  constructor
  · intro hrank rival hrival
    have hlevel : route.tailLevel + 3 = winner.tailLevel + 3 := by
      rw [← level_tailRank, ← level_tailRank, hrank]
    have hle := hbound rival hrival
    omega
  · intro hall
    have hle := hbound route hroute
    have hge := hall winner hwinner
    apply Rank.level_injective
    rw [level_tailRank, level_tailRank]
    omega

theorem foremost_eq_nil_iff (routes : List Route) : foremost routes = [] ↔ routes = [] := by
  constructor
  · intro hnone
    by_contra hroutes
    obtain ⟨winner, hwinner, hbest⟩ := exists_tailRank_eq_best hroutes
    rw [← filter_tailRank_eq_foremost, List.filter_eq_nil_iff] at hnone
    exact hnone winner hwinner (decide_eq_true hbest)
  · rintro rfl
    rfl

end Route

namespace ConversionTable

open Route

theorem selectRoute_eq (routes : List Route) :
    selectRoute routes =
      match foremost routes with
      | [] => .error .noConversion
      | [route] => .ok route
      | tied => .error (.ambiguous tied.length) := by
  match hforemost : foremost routes with
  | [] => rw [selectRoute, filter_tailRank_eq_foremost, hforemost]
  | [route] => rw [selectRoute, filter_tailRank_eq_foremost, hforemost]
  | first :: second :: rest => rw [selectRoute, filter_tailRank_eq_foremost, hforemost]

theorem selectRoute_eq_noConversion_iff (routes : List Route) :
    selectRoute routes = .error .noConversion ↔ routes = [] := by
  rw [selectRoute_eq, ← foremost_eq_nil_iff]
  split <;> simp_all

theorem selectRoute_eq_ok_iff (routes : List Route) (route : Route) :
    selectRoute routes = .ok route ↔ foremost routes = [route] := by
  rw [selectRoute_eq]
  split <;> simp_all

theorem mem_of_selectRoute {routes : List Route} {route : Route}
    (hselect : selectRoute routes = .ok route) : route ∈ routes := by
  have hforemost := (selectRoute_eq_ok_iff routes route).mp hselect
  exact List.mem_of_mem_filter (hforemost ▸ List.mem_singleton_self route)

theorem selectRoute_eq_ambiguous_iff (routes : List Route) (count : Nat) :
    selectRoute routes = .error (.ambiguous count) ↔
      2 ≤ count ∧ (foremost routes).length = count := by
  rw [selectRoute_eq]
  match foremost routes with
  | [] =>
      simp only [Except.error.injEq, reduceCtorEq, List.length_nil, false_iff, not_and]
      omega
  | [route] =>
      simp only [reduceCtorEq, List.length_singleton, false_iff, not_and]
      omega
  | first :: second :: rest =>
      simp only [Except.error.injEq, ConversionFailure.ambiguous.injEq, List.length_cons]
      omega

end ConversionTable
end CallResolution
