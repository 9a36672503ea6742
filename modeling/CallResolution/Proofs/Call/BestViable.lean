import CallResolution.Proofs.Call.Matching
import CallResolution.Proofs.Scope.Growth
import CallResolution.Settings.Rules

/-!
# The best viable candidate

A call is settled by its viable candidates alone.  If there is none, everything that
was collected is reported.  If one of them is better than every other, it is
selected.  Otherwise the call is ambiguous between those that no viable candidate
beats, and these are at least two.

The resolver looks only for candidates that nobody beats.  That a single one of them
beats all the others rests on the order of `Proofs.Call.Dominance`.
-/

namespace CallResolution

namespace Candidate

/-- An entry of the list that is better than every other entry.  Entries are told apart
by their places, so two equal entries rule each other out. -/
def BeatsRest (candidates : List Candidate) (best : Candidate) : Prop :=
  ∃ before after, candidates = before ++ best :: after ∧
    ∀ rival ∈ before ++ after, best.better rival = .firstBetter

/-- The entries that no entry of the list is better than, in their order. -/
def notBeaten (candidates : List Candidate) : List Candidate :=
  candidates.filter fun candidate =>
    candidates.all fun rival => rival.better candidate ≠ .firstBetter

theorem unbeaten_eq_notBeaten (candidates : List Candidate) :
    unbeaten candidates = notBeaten candidates := by
  apply List.filter_congr
  intro candidate _
  rw [Bool.eq_iff_iff, isUnbeaten_eq_true_iff]
  simp [beats]

/-- Who beats the rest is the only unbeaten entry. -/
theorem unbeaten_of_beatsRest {candidates : List Candidate} {best : Candidate}
    (hbest : BeatsRest candidates best) : unbeaten candidates = [best] := by
  obtain ⟨before, after, hsplit, hrivals⟩ := hbest
  have hbeats : ∀ rival ∈ before ++ after, best.beats rival = true := by
    intro rival hrival
    exact (beats_eq_true_iff best rival).mpr (hrivals rival hrival)
  have hmem : best ∈ candidates := by simp [hsplit]
  have hbeaten : ∀ rival ∈ before ++ after, ¬ isUnbeaten candidates rival = true := by
    intro rival hrival hunbeaten
    have hfree := (isUnbeaten_eq_true_iff candidates rival).mp hunbeaten best hmem
    rw [hbeats rival hrival] at hfree
    contradiction
  have hfree : isUnbeaten candidates best = true := by
    rw [isUnbeaten_eq_true_iff]
    intro rival hrival
    have hplace : rival = best ∨ rival ∈ before ++ after := by
      rw [hsplit, List.mem_append, List.mem_cons] at hrival
      rw [List.mem_append]
      tauto
    rcases hplace with rfl | hother
    · exact beats_self rival
    · exact beats_asymm (hbeats rival hother)
  rw [unbeaten]
  generalize hkeep : isUnbeaten candidates = keep at hbeaten hfree
  rw [hsplit, List.filter_append, List.filter_cons_of_pos hfree,
    List.filter_eq_nil_iff.mpr fun rival hrival => hbeaten rival (by simp [hrival]),
    List.filter_eq_nil_iff.mpr fun rival hrival => hbeaten rival (by simp [hrival])]
  rfl

/-- A single unbeaten entry beats the rest: every other entry is beaten by an unbeaten
one, and there is no second. -/
theorem SuppliedCount.beatsRest_of_unbeaten {candidates : List Candidate} {count : Nat}
    (hcount : SuppliedCount candidates count) {best : Candidate}
    (hunbeaten : unbeaten candidates = [best]) : BeatsRest candidates best := by
  obtain ⟨before, after, hsplit, hbefore, _, hafter⟩ := List.filter_eq_cons_iff.mp hunbeaten
  refine ⟨before, after, hsplit, ?_⟩
  intro rival hrival
  have hmem : rival ∈ candidates := by
    rw [hsplit]
    rcases List.mem_append.mp hrival with hleft | hright
    · simp [hleft]
    · simp [hright]
  have hbeaten : ¬ isUnbeaten candidates rival = true := by
    rcases List.mem_append.mp hrival with hleft | hright
    · exact hbefore rival hleft
    · exact List.filter_eq_nil_iff.mp hafter rival hright
  rcases hcount.exists_unbeaten hmem with hfree | ⟨winner, hwinner, hbeats⟩
  · exact (hbeaten (List.mem_filter.mp hfree).2).elim
  · rw [hunbeaten, List.mem_singleton] at hwinner
    rw [← hwinner]
    exact (beats_eq_true_iff winner rival).mp hbeats

theorem SuppliedCount.unbeaten_eq_singleton_iff {candidates : List Candidate} {count : Nat}
    (hcount : SuppliedCount candidates count) (best : Candidate) :
    unbeaten candidates = [best] ↔ BeatsRest candidates best :=
  ⟨hcount.beatsRest_of_unbeaten, unbeaten_of_beatsRest⟩

end Candidate

namespace Resolution

open Candidate

theorem ofCandidates_eq_noMatch_iff (matched attempted : List Candidate) :
    ofCandidates matched = .noMatch attempted ↔
      matched.filter (·.isViable) = [] ∧ attempted = matched := by
  unfold ofCandidates
  split
  · rename_i hnone
    simp [hnone, eq_comm]
  · rename_i hsome
    constructor
    · intro hnoMatch
      split at hnoMatch
      · cases hnoMatch
      · cases hnoMatch
    · rintro ⟨hnone, _⟩
      exact (hsome hnone).elim

theorem ofCandidates_eq_selected_iff (matched : List Candidate) (best : Candidate) :
    ofCandidates matched = .selected best ↔
      unbeaten (matched.filter (·.isViable)) = [best] := by
  unfold ofCandidates
  split
  · rename_i hnone
    simp [hnone, unbeaten]
  · split
    · rename_i hunbeaten
      simp [hunbeaten]
    · rename_i hmany
      simpa using hmany best

theorem ofCandidates_eq_ambiguous_iff (matched tied : List Candidate) :
    ofCandidates matched = .ambiguous tied ↔
      matched.filter (·.isViable) ≠ [] ∧
        (∀ best, unbeaten (matched.filter (·.isViable)) ≠ [best]) ∧
        tied = unbeaten (matched.filter (·.isViable)) := by
  unfold ofCandidates
  split
  · rename_i hnone
    simp [hnone]
  · rename_i hsome
    split
    · rename_i best hunbeaten
      simp [hunbeaten]
    · rename_i hmany
      constructor
      · intro htied
        exact ⟨hsome, hmany, (Resolution.ambiguous.inj htied).symm⟩
      · rintro ⟨_, _, rfl⟩
        rfl

end Resolution

namespace Program

open Candidate

/-- How the viable candidates of a call settle it.  `matched` has one candidate for
every collected proposal, in the same order; the outcome is a function of its viable
entries, except that a call without any reports all of `matched`. -/
theorem resolve_selects_best_viable (program : Program) (call : CallSite)
    (settled : SettledCall) (hresolve : program.resolve call = .ok settled) :
    ∃ matched : List Candidate,
      List.Forall₂
        (fun proposal candidate =>
          proposal.matchArguments call.args program.table program.graph = .ok candidate)
        (program.collected call) matched ∧
      let viable := matched.filter fun candidate => candidate.failure.isNone
      (∀ attempted, settled.resolution = .noMatch attempted ↔
        viable = [] ∧ attempted = matched) ∧
      (viable = [] → ∀ candidate ∈ matched, ∃ failure, candidate.failure = some failure) ∧
      (∀ best, settled.resolution = .selected best ↔ BeatsRest viable best) ∧
      (∀ tied, settled.resolution = .ambiguous tied ↔
        viable ≠ [] ∧ (∀ best, ¬ BeatsRest viable best) ∧ tied = notBeaten viable) ∧
      (∀ tied, settled.resolution = .ambiguous tied → 2 ≤ tied.length) := by
  obtain ⟨_, matched, hmatched, rfl⟩ := (resolve_eq_ok_iff program call settled).mp hresolve
  have hcount : SuppliedCount (matched.filter (·.isViable)) call.args.length :=
    suppliedCount_viable hmatched
  refine ⟨matched, (matched_eq_ok_iff program call matched).mp hmatched, ?_⟩
  have hambiguous : ∀ tied, Resolution.ofCandidates matched = .ambiguous tied ↔
      matched.filter (·.isViable) ≠ [] ∧
        (∀ best, ¬ BeatsRest (matched.filter (·.isViable)) best) ∧
        tied = notBeaten (matched.filter (·.isViable)) := by
    intro tied
    simp only [Resolution.ofCandidates_eq_ambiguous_iff, ne_eq,
      hcount.unbeaten_eq_singleton_iff, ← unbeaten_eq_notBeaten]
  refine ⟨Resolution.ofCandidates_eq_noMatch_iff matched, ?_, ?_, hambiguous, ?_⟩
  · intro hnone candidate hmem
    have hfailed := List.filter_eq_nil_iff.mp hnone candidate hmem
    cases hfailure : candidate.failure with
    | none => simp [hfailure] at hfailed
    | some failure => exact ⟨failure, rfl⟩
  · intro best
    rw [Resolution.ofCandidates_eq_selected_iff, hcount.unbeaten_eq_singleton_iff]
    rfl
  · intro tied htied
    obtain ⟨hsome, hmany, hunbeaten⟩ :=
      (Resolution.ofCandidates_eq_ambiguous_iff matched tied).mp htied
    -- The unbeaten entries are neither none nor one.
    match tied, hunbeaten with
    | [], hunbeaten => exact (hcount.unbeaten_ne_nil hsome hunbeaten.symm).elim
    | [best], hunbeaten => exact (hmany best hunbeaten.symm).elim
    | _ :: _ :: _, _ => simp

/-- A function `scale` with these parameters. -/
def scaleCommand (parameters : List Fingerprint) : Command :=
  .newFunction ScopeId.root "scale" (parameters.map (⟨·, .byValue, false, false⟩))

/-- Yards are converted to metres and to feet, metres to feet only. -/
def unitRules : RuleBook where
  scalarPreset := false
  promotion := []
  standard := [⟨"Yard", "Metre", none⟩, ⟨"Yard", "Foot", none⟩, ⟨"Metre", "Foot", none⟩]
  userDefined := []

/-- Three overloads of one name: for metres, for feet, and without an argument. -/
def scaleGraph : ScopeGraph :=
  Command.runAll [scaleCommand [.ofName "Metre"], scaleCommand [.ofName "Foot"], scaleCommand []]
    ScopeGraph.empty

def threeOverloads : Program where
  graph := scaleGraph
  table := unitRules.build.toOption.getD .empty

def scaleCall (unit : String) : CallSite :=
  ⟨0, .named "scale", ScopeId.root, [⟨.ofName unit, .rvalue⟩], ⟨0, 0⟩⟩

/-- The conversion of one unit to another by their rule. -/
def byUnitRule (source target : String) : Conversion :=
  ⟨.ofName source, .ofName target,
    .standardOnly ⟨.configured .standard, .ofName source, .ofName target⟩⟩

/-- The overload for the unit that the argument is converted to. -/
def scaling (conversion : Conversion) : Candidate where
  signature := ⟨"scale", ScopeId.root, .function, [⟨conversion.target, .byValue, false, false⟩],
    none⟩
  source := .lexical
  positions := [.supplied conversion.rank]
  bindings := [.converted conversion]
  failure := none

/-- The viable matches of a call are those that can be computed for it. -/
theorem filter_matched_eq {program : Program} {call : CallSite} {matched viable : List Candidate}
    (hmatched : List.Forall₂
      (fun proposal candidate =>
        proposal.matchArguments call.args program.table program.graph = .ok candidate)
      (program.collected call) matched)
    (hviable : (program.matched call).map (List.filter fun candidate => candidate.failure.isNone) =
      .ok viable) :
    (matched.filter fun candidate => candidate.failure.isNone) = viable := by
  rw [(matched_eq_ok_iff program call matched).mpr hmatched] at hviable
  exact Except.ok.inj hviable

/-- The overloads that a yard fits. -/
def yardScalings : List Candidate :=
  [scaling (byUnitRule "Yard" "Metre"), scaling (byUnitRule "Yard" "Foot")]

/-- The overloads that a metre fits. -/
def metreScalings : List Candidate :=
  [scaling (.identity (.ofName "Metre")), scaling (byUnitRule "Metre" "Foot")]

/-- A yard fits the overloads for metres and for feet equally well.  A metre fits that for feet
too, but that for metres better. -/
theorem threeOverloads_settled :
    scaleGraph.Built ∧ unitRules.build = .ok threeOverloads.table ∧
    (threeOverloads.resolve (scaleCall "Yard") = .ok ⟨0, .ambiguous yardScalings⟩ ∧
      ∀ best, ¬ BeatsRest yardScalings best) ∧
    threeOverloads.resolve (scaleCall "Metre") =
        .ok ⟨0, .selected (scaling (.identity (.ofName "Metre")))⟩ ∧
      BeatsRest metreScalings (scaling (.identity (.ofName "Metre"))) := by
  have hyard : threeOverloads.resolve (scaleCall "Yard") = .ok ⟨0, .ambiguous yardScalings⟩ := by
    decide +kernel
  have hmetre : threeOverloads.resolve (scaleCall "Metre") =
      .ok ⟨0, .selected (scaling (.identity (.ofName "Metre")))⟩ := by
    decide +kernel
  obtain ⟨yards, hyards, _, _, _, htied, _⟩ :=
    resolve_selects_best_viable threeOverloads (scaleCall "Yard") _ hyard
  obtain ⟨metres, hmetres, _, _, hselected, _, _⟩ :=
    resolve_selects_best_viable threeOverloads (scaleCall "Metre") _ hmetre
  have hyardViable : (yards.filter fun candidate => candidate.failure.isNone) = yardScalings :=
    filter_matched_eq hyards (by decide +kernel)
  have hmetreViable : (metres.filter fun candidate => candidate.failure.isNone) = metreScalings :=
    filter_matched_eq hmetres (by decide +kernel)
  rw [hyardViable] at htied
  rw [hmetreViable] at hselected
  exact ⟨⟨_, Or.inl rfl⟩, by decide +kernel, ⟨hyard, ((htied _).mp rfl).2.1⟩, hmetre,
    (hselected _).mp rfl⟩

end Program
end CallResolution
