import Mathlib.Tactic
import CallResolution.Proofs.Call.Dominance

/-!
# Beaten candidates may be left out

A candidate that is left out may be the very one that beat another.  This does not bring the
other one back: whoever is beaten is beaten by somebody whom nobody beats, and these are
kept.  So the best candidates of a list are found in every part of it that has them all.

Candidates are compared by value and chosen by place.  A list may hold a candidate twice;
then both places are chosen or none.
-/

namespace CallResolution
namespace Candidate

/-! ## Places -/

theorem mem_unbeatenPlaces_iff {candidates : List Candidate} {place : Nat} :
    place ∈ unbeatenPlaces candidates ↔
      ∃ candidate, candidates[place]? = some candidate ∧
        isUnbeaten candidates candidate = true := by
  simp only [unbeatenPlaces, List.mem_map, List.mem_filter, Prod.exists,
    List.mem_zipIdx_iff_getElem?]
  constructor
  · rintro ⟨candidate, _, ⟨hplace, hunbeaten⟩, rfl⟩
    exact ⟨candidate, hplace, hunbeaten⟩
  · rintro ⟨candidate, hplace, hunbeaten⟩
    exact ⟨candidate, place, ⟨hplace, hunbeaten⟩, rfl⟩

/-- Going by the places of the unbeaten candidates is the same as asking every candidate,
whatever the entries carry besides. -/
theorem filterMap_unbeatenPlaces {α : Type} (entries : List (Candidate × α)) :
    (unbeatenPlaces (entries.map (·.1))).filterMap (entries[·]?) =
      entries.filter fun entry => isUnbeaten (entries.map (·.1)) entry.1 := by
  generalize hkeep : isUnbeaten (entries.map (·.1)) = keep
  have hfound : ∀ numbered ∈ entries.zipIdx.filter (fun numbered => keep numbered.1.1),
      entries[numbered.2]? = some numbered.1 := by
    intro numbered hmem
    exact List.mem_zipIdx_iff_getElem?.mp (List.mem_filter.mp hmem).1
  calc (unbeatenPlaces (entries.map (·.1))).filterMap (entries[·]?)
      = (entries.zipIdx.filter fun numbered => keep numbered.1.1).filterMap
          fun numbered => entries[numbered.2]? := by
        simp [unbeatenPlaces, hkeep, List.zipIdx_map, List.filter_map, List.filterMap_map,
          Function.comp_def]
    _ = (entries.zipIdx.filter fun numbered => keep numbered.1.1).map (·.1) := by
        rw [List.filterMap_congr hfound, List.filterMap_eq_map']
    _ = (entries.zipIdx.map (·.1)).filter fun entry => keep entry.1 := by
        rw [List.filter_map]
        rfl
    _ = entries.filter fun entry => keep entry.1 := by rw [List.zipIdx_map_fst]

theorem unbeaten_map_fst {α : Type} (entries : List (Candidate × α)) :
    unbeaten (entries.map (·.1)) =
      (entries.filter fun entry => isUnbeaten (entries.map (·.1)) entry.1).map (·.1) := by
  rw [unbeaten, List.filter_map]
  rfl

/-! ## Leaving candidates out -/

/-- Who is unbeaten among all is unbeaten in a part, and nobody else is, if the part has all
the unbeaten ones. -/
theorem SuppliedCount.isUnbeaten_eq {candidates part : List Candidate} {count : Nat}
    (hcount : SuppliedCount candidates count) (hpart : part ⊆ candidates)
    (hbest : unbeaten candidates ⊆ part) {candidate : Candidate}
    (hcandidate : candidate ∈ candidates) :
    isUnbeaten part candidate = isUnbeaten candidates candidate := by
  rw [Bool.eq_iff_iff, isUnbeaten_eq_true_iff, isUnbeaten_eq_true_iff]
  constructor
  · intro hpartial
    rcases hcount.exists_unbeaten hcandidate with hfree | ⟨best, hmem, hbeats⟩
    · exact ((mem_unbeaten_iff candidates candidate).mp hfree).2
    · rw [hpartial best (hbest hmem)] at hbeats
      cases hbeats
  · intro hall rival hrival
    exact hall rival (hpart hrival)

/-- The entries of a list with their places, where `keep` says which places are left. -/
def keptEntries (keep : Nat → Bool) (candidates : List Candidate) : List (Candidate × Nat) :=
  candidates.zipIdx.filter fun entry => keep entry.2

section Keep

variable {candidates : List Candidate} {keep : Nat → Bool}

theorem map_keptEntries_subset :
    (keptEntries keep candidates).map (·.1) ⊆ candidates := by
  intro candidate hmem
  obtain ⟨entry, hentry, rfl⟩ := List.mem_map.mp hmem
  have hplace := List.mem_zipIdx_iff_getElem?.mp (List.mem_filter.mp hentry).1
  exact List.mem_of_getElem? hplace

theorem unbeaten_subset_map_keptEntries
    (hkeep : ∀ place ∈ unbeatenPlaces candidates, keep place = true) :
    unbeaten candidates ⊆ (keptEntries keep candidates).map (·.1) := by
  intro candidate hmem
  obtain ⟨hcandidate, hunbeaten⟩ := List.mem_filter.mp hmem
  obtain ⟨place, hplace⟩ := List.getElem?_of_mem hcandidate
  have hkept := hkeep place (mem_unbeatenPlaces_iff.mpr ⟨candidate, hplace, hunbeaten⟩)
  refine List.mem_map.mpr ⟨(candidate, place), List.mem_filter.mpr ⟨?_, hkept⟩, rfl⟩
  exact List.mem_zipIdx_iff_getElem?.mpr hplace

/-- The unbeaten entries of the part that is left are the unbeaten entries of the list. -/
theorem SuppliedCount.filter_keptEntries {count : Nat} (hcount : SuppliedCount candidates count)
    (hkeep : ∀ place ∈ unbeatenPlaces candidates, keep place = true) :
    (keptEntries keep candidates).filter
        (fun entry => isUnbeaten ((keptEntries keep candidates).map (·.1)) entry.1) =
      candidates.zipIdx.filter fun entry => isUnbeaten candidates entry.1 := by
  generalize hpart : (keptEntries keep candidates).map (·.1) = part
  have hsame : ∀ candidate ∈ candidates,
      isUnbeaten part candidate = isUnbeaten candidates candidate := fun candidate =>
    hcount.isUnbeaten_eq (hpart ▸ map_keptEntries_subset)
      (hpart ▸ unbeaten_subset_map_keptEntries hkeep)
  rw [keptEntries, List.filter_filter]
  apply List.filter_congr
  rintro ⟨candidate, place⟩ hentry
  have hplace := List.mem_zipIdx_iff_getElem?.mp hentry
  rw [hsame candidate (List.mem_of_getElem? hplace)]
  -- An unbeaten entry stands at a place that is kept; of the others nothing is asked.
  cases hunbeaten : isUnbeaten candidates candidate with
  | false => rfl
  | true => exact hkeep place (mem_unbeatenPlaces_iff.mpr ⟨candidate, hplace, hunbeaten⟩)

end Keep

/-- Beaten candidates are irrelevant.  If any of the places are left out of a list but none
where the candidate is unbeaten, the entries chosen from the rest are those chosen from the
list, in the same order and from the same places.  And whoever is not chosen is beaten by
somebody who is. -/
theorem beaten_candidates_irrelevant {candidates : List Candidate} {count : Nat}
    (hcount : SuppliedCount candidates count) :
    (∀ keep : Nat → Bool, (∀ place ∈ unbeatenPlaces candidates, keep place = true) →
      let kept := keptEntries keep candidates
      (unbeatenPlaces (kept.map (·.1))).filterMap (kept[·]?) =
          (unbeatenPlaces candidates).filterMap (candidates.zipIdx[·]?) ∧
        unbeaten (kept.map (·.1)) = unbeaten candidates) ∧
    ∀ place candidate, candidates[place]? = some candidate →
      place ∉ unbeatenPlaces candidates →
        ∃ winner ∈ unbeatenPlaces candidates, ∃ best, candidates[winner]? = some best ∧
          best.better candidate = .firstBetter := by
  refine ⟨fun keep hkeep => ⟨?_, ?_⟩, ?_⟩
  · have hall := filterMap_unbeatenPlaces candidates.zipIdx
    rw [List.zipIdx_map_fst] at hall
    rw [filterMap_unbeatenPlaces, hcount.filter_keptEntries hkeep, hall]
  · have hall := unbeaten_map_fst candidates.zipIdx
    rw [List.zipIdx_map_fst] at hall
    rw [unbeaten_map_fst, hcount.filter_keptEntries hkeep, hall]
  · intro place candidate hplace hbeaten
    rcases hcount.exists_unbeaten (List.mem_of_getElem? hplace) with hfree | ⟨best, hbest, hbeats⟩
    · have hunbeaten := (List.mem_filter.mp hfree).2
      exact absurd (mem_unbeatenPlaces_iff.mpr ⟨candidate, hplace, hunbeaten⟩) hbeaten
    · obtain ⟨hmem, hunbeaten⟩ := List.mem_filter.mp hbest
      obtain ⟨winner, hwinner⟩ := List.getElem?_of_mem hmem
      exact ⟨winner, mem_unbeatenPlaces_iff.mpr ⟨best, hwinner, hunbeaten⟩, best, hwinner,
        (beats_eq_true_iff best candidate).mp hbeats⟩

/-- A viable candidate with these ranks. -/
def ofRanks (positions : List PlaceRank) : Candidate where
  signature := ⟨"f", ScopeId.root, .function, [], none⟩
  source := .lexical
  positions := positions
  bindings := []
  failure := none

/-- The first candidate beats the second and the second beats the third, which has a default
besides.  The fourth crosses with the first, and the fifth is the first once more. -/
def chainAndCross : List Candidate :=
  [ofRanks [.supplied .exact, .supplied .standard],
    ofRanks [.supplied .promotion, .supplied .standard],
    ofRanks [.supplied .standard, .supplied .standard, .defaulted],
    ofRanks [.supplied .standard, .supplied .exact],
    ofRanks [.supplied .exact, .supplied .standard]]

/-- Without the second candidate the third is still beaten, and the chosen ones keep their
places in the full list. -/
theorem chainAndCross_without_second :
    SuppliedCount chainAndCross 2 ∧
      (∀ place ∈ unbeatenPlaces chainAndCross, (place != 1) = true) ∧
      ((unbeatenPlaces ((keptEntries (· != 1) chainAndCross).map (·.1))).filterMap
        ((keptEntries (· != 1) chainAndCross)[·]?)).map (·.2) = [0, 3, 4] ∧
      ∃ winner ∈ unbeatenPlaces chainAndCross, ∃ best, chainAndCross[winner]? = some best ∧
        best.better (ofRanks [.supplied .standard, .supplied .standard, .defaulted]) =
          .firstBetter := by
  have hcount : SuppliedCount chainAndCross 2 := by
    unfold SuppliedCount
    decide
  have hkeep : ∀ place ∈ unbeatenPlaces chainAndCross, (place != 1) = true := by decide
  obtain ⟨hpart, hbeaten⟩ := beaten_candidates_irrelevant hcount
  obtain ⟨hchosen, _⟩ := hpart (· != 1) hkeep
  refine ⟨hcount, hkeep, ?_, hbeaten 2 _ rfl (by decide)⟩
  rw [hchosen]
  decide

end Candidate
end CallResolution
