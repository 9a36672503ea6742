import Mathlib.Data.List.Forall2
import Mathlib.Tactic
import CallResolution.Call.Ranking

/-!
# The order behind the ranking

`Candidate.better` compares two lists of ranks position by position and forgets
what one list has beyond the other.  Among candidates with equally many supplied
arguments nothing is forgotten: one candidate beats another exactly when it is
nowhere worse and the other is somewhere worse.  So `beats` is the strict part of
a preorder, and every beaten candidate of a finite list is beaten by one that
nobody beats.

Without the hypothesis on the number of supplied arguments `beats` is NOT
transitive; only irreflexivity and asymmetry hold of all candidates.
-/

namespace CallResolution

namespace Rank

theorem not_lt_iff_le (a b : Rank) : ¬ a < b ↔ b ≤ a :=
  Nat.not_lt

theorem le_trans {a b c : Rank} (hab : a ≤ b) (hbc : b ≤ c) : a ≤ c :=
  Nat.le_trans hab hbc

end Rank

namespace Candidate

/-- The first list ranks every supplied argument at least as well as the second. -/
def NoWorse (first second : List Rank) : Prop :=
  List.Forall₂ (fun a b => b ≤ a) first second

theorem noWorse_trans {first second third : List Rank}
    (hfirst : NoWorse first second) (hsecond : NoWorse second third) :
    NoWorse first third := by
  induction hfirst generalizing third with
  | nil => exact hsecond
  | cons hhead _ ih =>
      cases hsecond with
      | cons hhead' htail' => exact .cons (Rank.le_trans hhead' hhead) (ih htail')

/-- For lists of one length, the second wins nowhere exactly if the first is
nowhere worse. -/
theorem winsSomewhere_eq_false_iff {first second : List Rank}
    (hlength : first.length = second.length) :
    winsSomewhere second first = false ↔ NoWorse first second := by
  induction first generalizing second with
  | nil =>
      cases second with
      | nil => simp [winsSomewhere, NoWorse]
      | cons b rest => simp at hlength
  | cons a tail ih =>
      cases second with
      | nil => simp at hlength
      | cons b rest =>
          have htail : tail.length = rest.length := by simpa using hlength
          have hrec := ih htail
          simp only [winsSomewhere, NoWorse] at hrec
          simp only [winsSomewhere, NoWorse, List.zip_cons_cons, List.any_cons,
            Bool.or_eq_false_iff, decide_eq_false_iff_not, List.forall₂_cons]
          rw [hrec, Rank.not_lt_iff_le]

theorem better_eq_firstBetter_iff (first second : Candidate) :
    first.better second = .firstBetter ↔
      winsSomewhere first.suppliedRanks second.suppliedRanks = true ∧
        winsSomewhere second.suppliedRanks first.suppliedRanks = false := by
  unfold better
  cases winsSomewhere first.suppliedRanks second.suppliedRanks <;>
    cases winsSomewhere second.suppliedRanks first.suppliedRanks <;> simp

theorem beats_eq_true_iff (first second : Candidate) :
    first.beats second = true ↔ first.better second = .firstBetter := by
  simp [beats]

/-- No candidate beats itself. -/
@[simp]
theorem beats_self (candidate : Candidate) : candidate.beats candidate = false := by
  rw [Bool.eq_false_iff, ne_eq, beats_eq_true_iff, better_eq_firstBetter_iff]
  rintro ⟨hwins, hloses⟩
  rw [hwins] at hloses
  contradiction

theorem beats_asymm {first second : Candidate} (hbeats : first.beats second = true) :
    second.beats first = false := by
  rw [beats_eq_true_iff, better_eq_firstBetter_iff] at hbeats
  rw [Bool.eq_false_iff, ne_eq, beats_eq_true_iff, better_eq_firstBetter_iff]
  rintro ⟨hwins, _⟩
  rw [hbeats.2] at hwins
  contradiction

/-- With equally many supplied arguments, beating is the strict part of the
pointwise order. -/
theorem beats_iff_noWorse {first second : Candidate}
    (hlength : first.suppliedRanks.length = second.suppliedRanks.length) :
    first.beats second = true ↔
      NoWorse first.suppliedRanks second.suppliedRanks ∧
        ¬ NoWorse second.suppliedRanks first.suppliedRanks := by
  rw [beats_eq_true_iff, better_eq_firstBetter_iff,
    winsSomewhere_eq_false_iff hlength,
    ← winsSomewhere_eq_false_iff hlength.symm, Bool.not_eq_false, and_comm]

/-- Every candidate of the list has this many supplied arguments. -/
def SuppliedCount (candidates : List Candidate) (count : Nat) : Prop :=
  ∀ candidate ∈ candidates, candidate.suppliedRanks.length = count

theorem SuppliedCount.beats_trans {candidates : List Candidate} {count : Nat}
    (hcount : SuppliedCount candidates count) {first second third : Candidate}
    (hfirst : first ∈ candidates) (hsecond : second ∈ candidates)
    (hthird : third ∈ candidates)
    (hbeats : first.beats second = true) (hbeats' : second.beats third = true) :
    first.beats third = true := by
  have hlength : first.suppliedRanks.length = second.suppliedRanks.length :=
    (hcount first hfirst).trans (hcount second hsecond).symm
  have hlength' : second.suppliedRanks.length = third.suppliedRanks.length :=
    (hcount second hsecond).trans (hcount third hthird).symm
  rw [beats_iff_noWorse hlength] at hbeats
  rw [beats_iff_noWorse hlength'] at hbeats'
  rw [beats_iff_noWorse (hlength.trans hlength')]
  refine ⟨noWorse_trans hbeats.1 hbeats'.1, fun hback => hbeats.2 ?_⟩
  exact noWorse_trans hbeats'.1 hback

/-! ## Unbeaten candidates -/

theorem isUnbeaten_eq_true_iff (candidates : List Candidate) (candidate : Candidate) :
    isUnbeaten candidates candidate = true ↔
      ∀ rival ∈ candidates, rival.beats candidate = false := by
  simp [isUnbeaten]

theorem mem_unbeaten_iff (candidates : List Candidate) (candidate : Candidate) :
    candidate ∈ unbeaten candidates ↔
      candidate ∈ candidates ∧ ∀ rival ∈ candidates, rival.beats candidate = false := by
  rw [unbeaten, List.mem_filter, isUnbeaten_eq_true_iff]

/-- Who is beaten does not depend on the order of the list. -/
theorem unbeaten_perm {candidates others : List Candidate} (hperm : candidates.Perm others) :
    (unbeaten candidates).Perm (unbeaten others) := by
  have hunbeaten : isUnbeaten candidates = isUnbeaten others := by
    funext candidate
    rw [isUnbeaten, isUnbeaten, hperm.any_eq]
  rw [unbeaten, unbeaten, hunbeaten]
  exact hperm.filter _

/-- Who beats the one that beats a candidate also beats that candidate, but does not
beat itself; so the set of those who beat shrinks on the way up. -/
theorem SuppliedCount.length_filter_beats_lt {candidates : List Candidate} {count : Nat}
    (hcount : SuppliedCount candidates count) {candidate rival : Candidate}
    (hcandidate : candidate ∈ candidates) (hrival : rival ∈ candidates)
    (hbeats : rival.beats candidate = true) :
    (candidates.filter (·.beats rival)).length <
      (candidates.filter (·.beats candidate)).length := by
  have hnested : candidates.filter (·.beats rival) =
      (candidates.filter (·.beats candidate)).filter (·.beats rival) := by
    rw [List.filter_filter]
    apply List.filter_congr
    intro other hother
    cases hbeatsRival : other.beats rival with
    | false => rfl
    | true => simp [hcount.beats_trans hother hrival hcandidate hbeatsRival hbeats]
  rw [hnested, List.length_filter_lt_length_iff_exists]
  exact ⟨rival, List.mem_filter.mpr ⟨hrival, hbeats⟩, by simp⟩

/-- A candidate of the list is unbeaten or beaten by an unbeaten one. -/
theorem SuppliedCount.exists_unbeaten {candidates : List Candidate} {count : Nat}
    (hcount : SuppliedCount candidates count) {candidate : Candidate}
    (hcandidate : candidate ∈ candidates) :
    candidate ∈ unbeaten candidates ∨
      ∃ best ∈ unbeaten candidates, best.beats candidate = true := by
  -- The induction is on the number of rivals that beat the candidate.
  induction hrivals : (candidates.filter (·.beats candidate)).length
    using Nat.strong_induction_on generalizing candidate with
  | _ rivals ih =>
      subst hrivals
      by_cases hunbeaten : ∀ rival ∈ candidates, rival.beats candidate = false
      · exact Or.inl ((mem_unbeaten_iff candidates candidate).mpr ⟨hcandidate, hunbeaten⟩)
      · push Not at hunbeaten
        obtain ⟨rival, hrival, hbeaten⟩ := hunbeaten
        have hbeats : rival.beats candidate = true := by simpa using hbeaten
        have hfewer := hcount.length_filter_beats_lt hcandidate hrival hbeats
        rcases ih _ hfewer hrival rfl with hbest | ⟨best, hbest, hbestBeats⟩
        · exact Or.inr ⟨rival, hbest, hbeats⟩
        · have hbestMem := ((mem_unbeaten_iff candidates best).mp hbest).1
          exact Or.inr ⟨best, hbest,
            hcount.beats_trans hbestMem hrival hcandidate hbestBeats hbeats⟩

/-- Somebody is unbeaten, if there is anybody. -/
theorem SuppliedCount.unbeaten_ne_nil {candidates : List Candidate} {count : Nat}
    (hcount : SuppliedCount candidates count) (hne : candidates ≠ []) :
    unbeaten candidates ≠ [] := by
  obtain ⟨candidate, hcandidate⟩ := List.exists_mem_of_ne_nil candidates hne
  rcases hcount.exists_unbeaten hcandidate with hmem | ⟨best, hmem, _⟩
  · exact List.ne_nil_of_mem hmem
  · exact List.ne_nil_of_mem hmem

end Candidate
end CallResolution
