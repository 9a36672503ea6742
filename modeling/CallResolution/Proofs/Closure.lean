import Mathlib.Data.Finset.Card
import Mathlib.Logic.Relation
import Mathlib.Tactic
import CallResolution.Scope.Closure

/-!
# The closure is reachability

Following a successor function round by round collects only what can be reached.  It
collects all of it as soon as there are at least as many rounds as elements not seen yet:
a round that does not end the search sees one more of them.

The elements have to lie in a finite set that successors do not leave.  Successors may run
in circles.
-/

namespace CallResolution
namespace Closure

variable {α : Type} [DecidableEq α] {next : α → List α} {seen : List α}

/-- Any number of steps, each from an element to one of its successors. -/
abbrev Leads (next : α → List α) : α → α → Prop :=
  Relation.ReflTransGen fun a b => b ∈ next a

theorem mem_fresh_iff {b : α} :
    b ∈ fresh next seen ↔ (∃ a ∈ seen, b ∈ next a) ∧ b ∉ seen := by
  simp [fresh]

/-- What is collected can be reached from something seen at the start. -/
theorem exists_leads_of_mem_reach {steps : Nat} {b : α} (hmem : b ∈ reach next steps seen) :
    ∃ a ∈ seen, Leads next a b := by
  induction steps generalizing seen with
  | zero => exact ⟨b, hmem, .refl⟩
  | succ steps ih =>
      rw [reach] at hmem
      cases hfresh : fresh next seen with
      | nil =>
          rw [hfresh] at hmem
          exact ⟨b, hmem, .refl⟩
      | cons first rest =>
          rw [hfresh] at hmem
          obtain ⟨a, ha, hleads⟩ := ih hmem
          rcases List.mem_append.mp ha with hold | hnew
          · exact ⟨a, hold, hleads⟩
          · rw [← hfresh, mem_fresh_iff] at hnew
            obtain ⟨⟨origin, horigin, hstep⟩, _⟩ := hnew
            exact ⟨origin, horigin, .head hstep hleads⟩

omit [DecidableEq α] in
/-- Steps do not lead out of a list that has all successors of its elements. -/
theorem mem_of_leads (hclosed : ∀ a ∈ seen, ∀ b ∈ next a, b ∈ seen) {a b : α} (ha : a ∈ seen)
    (hleads : Leads next a b) : b ∈ seen := by
  induction hleads with
  | refl => exact ha
  | tail _ hstep ih => exact hclosed _ ih _ hstep

/-- Fewer elements are left to see once a new one is seen. -/
theorem card_unseen_lt {world : Finset α} {more : List α} (hmore : seen ⊆ more) {a : α}
    (ha : a ∈ world) (hunseen : a ∉ seen) (hseen : a ∈ more) :
    (world.filter (· ∉ more)).card < (world.filter (· ∉ seen)).card := by
  apply Finset.card_lt_card
  refine Finset.ssubset_iff_subset_ne.mpr ⟨?_, ?_⟩
  · apply Finset.monotone_filter_right
    intro b _ hb hold
    exact hb (hmore hold)
  · intro hsame
    have hmem : a ∈ world.filter (· ∉ seen) := Finset.mem_filter.mpr ⟨ha, hunseen⟩
    rw [← hsame, Finset.mem_filter] at hmem
    exact hmem.2 hseen

section Finite

variable {world : Finset α} (hworld : ∀ a ∈ world, ∀ b ∈ next a, b ∈ world)
include hworld

/-- With a round for every element that is not seen yet, nothing is missed. -/
theorem mem_reach_of_leads {steps : Nat} (hseen : ∀ a ∈ seen, a ∈ world)
    (hsteps : (world.filter (· ∉ seen)).card ≤ steps) {a b : α} (ha : a ∈ seen)
    (hleads : Leads next a b) : b ∈ reach next steps seen := by
  induction steps generalizing seen a with
  | zero =>
      -- Everything is seen, so the steps stay within what is seen.
      have hall : ∀ c ∈ world, c ∈ seen := by
        intro c hc
        by_contra hunseen
        have hmem : c ∈ world.filter (· ∉ seen) := Finset.mem_filter.mpr ⟨hc, hunseen⟩
        rw [Finset.card_eq_zero.mp (Nat.le_zero.mp hsteps)] at hmem
        exact Finset.notMem_empty c hmem
      exact mem_of_leads (fun c hc d hd => hall d (hworld c (hseen c hc) d hd)) ha hleads
  | succ steps ih =>
      rw [reach]
      cases hfresh : fresh next seen with
      | nil =>
          refine mem_of_leads (fun c hc d hd => ?_) ha hleads
          by_contra hunseen
          have hmem : d ∈ fresh next seen := mem_fresh_iff.mpr ⟨⟨c, hc, hd⟩, hunseen⟩
          rw [hfresh] at hmem
          cases hmem
      | cons first rest =>
          have hnew : ∀ c ∈ first :: rest, c ∈ world ∧ c ∉ seen := by
            intro c hc
            rw [← hfresh, mem_fresh_iff] at hc
            obtain ⟨⟨origin, horigin, hstep⟩, hunseen⟩ := hc
            exact ⟨hworld origin (hseen origin horigin) c hstep, hunseen⟩
          refine ih ?_ ?_ (List.mem_append_left _ ha) hleads
          · intro c hc
            rcases List.mem_append.mp hc with hold | hc
            · exact hseen c hold
            · exact (hnew c hc).1
          · obtain ⟨hfirst, hunseen⟩ := hnew first List.mem_cons_self
            have hfewer := card_unseen_lt (List.subset_append_left seen (first :: rest)) hfirst
              hunseen (List.mem_append_right seen List.mem_cons_self)
            omega

/-- From one element, as many rounds as there are elements collect what it leads to. -/
theorem mem_reach_iff {steps : Nat} (hsteps : world.card ≤ steps) {a : α} (ha : a ∈ world)
    (b : α) : b ∈ reach next steps [a] ↔ Leads next a b := by
  constructor
  · intro hmem
    obtain ⟨origin, horigin, hleads⟩ := exists_leads_of_mem_reach hmem
    rwa [List.mem_singleton.mp horigin] at hleads
  · refine mem_reach_of_leads hworld ?_ ((Finset.card_filter_le _ _).trans hsteps)
      List.mem_cons_self
    simpa using ha

end Finite

end Closure
end CallResolution
