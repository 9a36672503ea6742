import Mathlib.Tactic
import CallResolution.Proofs.Conversion.Building
import CallResolution.Proofs.Conversion.Selection
import CallResolution.Scope.Registration

/-!
# Written rules and the scalar preset

The preset fills in standard rules for pairs of scalars.  A pair with a written standard
rule or promotion keeps it.  A written user-defined rule is not looked at, though: between
two scalars the preset puts a standard rule beside it, and a standard rule is asked first.

Any other pair with a written user-defined rule is safe.  The preset may open new routes
that go through a scalar, but they end in a standard step, and a route that ends with its
user-defined rule is better than all of them.
-/

namespace CallResolution

/-! ## What the preset adds -/

/-- The type is one of the built-in scalars. -/
def Fingerprint.IsScalar (type : Fingerprint) : Prop :=
  ∃ scalar ∈ Scalar.all, scalar.fingerprint = type

instance (type : Fingerprint) : Decidable type.IsScalar :=
  inferInstanceAs (Decidable (∃ scalar ∈ Scalar.all, _))

namespace ConversionTable

theorem standardKind?_foldl_fillStandard (rules : List StandardRule) (table : ConversionTable)
    (source target : Fingerprint) :
    (rules.foldl fillStandard table).standardKind? source target =
      (table.standardKind? source target).or
        ((rules.find? fun rule => rule.source = source ∧ rule.target = target).map (·.kind)) := by
  induction rules generalizing table with
  | nil => simp
  | cons rule rest ih =>
      rw [List.foldl_cons, ih, standardKind?_fillStandard, Option.or_assoc]
      by_cases hpair : rule.source = source ∧ rule.target = target
      · simp [hpair]
      · simp [hpair]

theorem userDefined_fillScalars (table : ConversionTable) :
    table.fillScalars.userDefined = table.userDefined := by
  unfold fillScalars
  generalize scalarRules = rules
  induction rules generalizing table with
  | nil => rfl
  | cons rule rest ih => rw [List.foldl_cons, ih, userDefined_fillStandard]

/-- The preset has a rule for a pair of distinct types exactly if both are scalars. -/
theorem exists_scalarRule_iff {source target : Fingerprint} (hne : source ≠ target) :
    (∃ rule ∈ scalarRules, rule.source = source ∧ rule.target = target) ↔
      source.IsScalar ∧ target.IsScalar := by
  constructor
  · rintro ⟨rule, hrule, rfl, rfl⟩
    obtain ⟨first, hfirst, hrule⟩ := List.mem_flatMap.mp hrule
    obtain ⟨second, hsecond, rfl⟩ := List.mem_map.mp hrule
    exact ⟨⟨first, hfirst, rfl⟩, ⟨second, (List.mem_filter.mp hsecond).1, rfl⟩⟩
  · rintro ⟨⟨first, hfirst, rfl⟩, ⟨second, hsecond, rfl⟩⟩
    have hscalars : second ≠ first := by
      rintro rfl
      exact hne rfl
    refine ⟨_, List.mem_flatMap.mpr ⟨first, hfirst, List.mem_map.mpr ⟨second, ?_, rfl⟩⟩, rfl, rfl⟩
    exact List.mem_filter.mpr ⟨hsecond, by simpa using hscalars⟩

section Fill

variable {table : ConversionTable} {source target : Fingerprint}

/-- A pair that has a standard rule keeps it. -/
theorem standardKind?_fillScalars_of_some {kind : RuleKind}
    (hkind : table.standardKind? source target = some kind) :
    table.fillScalars.standardKind? source target = some kind := by
  rw [fillScalars, standardKind?_foldl_fillStandard, hkind, Option.some_or]

/-- A pair that has no standard rule gets one exactly if it is a pair of scalars. -/
theorem isSome_standardKind?_fillScalars_iff (hne : source ≠ target)
    (hnone : table.standardKind? source target = none) :
    (table.fillScalars.standardKind? source target).isSome = true ↔
      source.IsScalar ∧ target.IsScalar := by
  rw [fillScalars, standardKind?_foldl_fillStandard, hnone, Option.none_or, Option.isSome_map,
    List.find?_isSome, ← exists_scalarRule_iff hne]
  simp

end Fill

end ConversionTable

/-! ## Direct user-defined rules -/

namespace Rank

theorem foldl_best_of_exact_mem {ranks : List Rank} (hexact : .exact ∈ ranks) (start : Rank) :
    ranks.foldl best start = .exact := by
  have hle := level_le_foldl_best ranks start .exact (List.mem_cons_of_mem _ hexact)
  exact level_injective (Nat.le_antisymm (level_le_exact _) hle)

end Rank

namespace ConversionTable

/-- Where a route needs no step after its rule, only such routes compete. -/
theorem selectRoute_of_exact {routes : List Route}
    (hexact : ∃ route ∈ routes, route.tailRank = .exact) :
    selectRoute routes = selectRoute (routes.filter (·.tailRank = .exact)) := by
  obtain ⟨route, hroute, htail⟩ := hexact
  have hbest : ∀ others : List Route, route ∈ others →
      (others.map Route.tailRank).foldl Rank.best .inapplicable = .exact := fun others hmem =>
    Rank.foldl_best_of_exact_mem (htail ▸ List.mem_map_of_mem hmem) _
  have hkept : route ∈ routes.filter (·.tailRank = .exact) :=
    List.mem_filter.mpr ⟨hroute, by simpa using htail⟩
  rw [selectRoute, selectRoute, hbest routes hroute, hbest _ hkept, List.filter_filter]
  simp

/-- A route needs no further step exactly if its rule leads straight to the target. -/
theorem filter_routeThrough (table : ConversionTable) (graph : ScopeGraph)
    (target : Fingerprint) (rule : UserRule) :
    (table.routeThrough graph target rule).filter (·.tailRank = .exact) =
      if rule.target = target then some (.userOnly rule) else none := by
  unfold routeThrough
  split
  · rfl
  · cases table.step? graph rule.target target with
    | none => rfl
    | some step =>
        have hrank : step.rank ≠ .exact := by
          obtain ⟨basis, _, _⟩ := step
          rcases basis with (_ | _) | _ <;> simp [Step.rank]
        simp [Option.filter, Route.tailRank, hrank]

theorem filter_userRoutes (table : ConversionTable) (graph : ScopeGraph)
    (source target : Fingerprint) :
    (table.userRoutes graph source target).filter (·.tailRank = .exact) =
      ((table.rulesFrom source).filter (·.target = target)).map .userOnly := by
  rw [userRoutes, List.filter_filterMap]
  simp only [filter_routeThrough]
  induction table.rulesFrom source with
  | nil => rfl
  | cons rule rest ih => by_cases htarget : rule.target = target <;> simp [htarget, ih]

theorem isSome_userRule?_of_mem_userRoutes {table : ConversionTable} {graph : ScopeGraph}
    {source target : Fingerprint} {route : Route}
    (hroute : route ∈ table.userRoutes graph source target) : route.userRule?.isSome = true := by
  obtain ⟨rule, _, hthrough⟩ := List.mem_filterMap.mp hroute
  unfold routeThrough at hthrough
  split at hthrough
  · obtain rfl := Option.some.inj hthrough
    rfl
  · obtain ⟨step, _, rfl⟩ := Option.map_eq_some_iff.mp hthrough
    rfl

section Convert

variable {table other : ConversionTable} {source target : Fingerprint} {graph : ScopeGraph}

theorem convert_of_standardKind? (hne : source ≠ target) {kind : RuleKind}
    (hkind : table.standardKind? source target = some kind) :
    table.convert graph source target =
      .ok ⟨source, target, .standardOnly ⟨.configured kind, source, target⟩⟩ := by
  rw [convert, if_neg hne, step?, hkind]

/-- Where a user-defined rule leads straight to the target and no standard rule stands for
the pair, other standard rules make no difference. -/
theorem convert_eq_of_direct (hne : source ≠ target)
    (hnone : table.standardKind? source target = none)
    (hother : other.standardKind? source target = none)
    (husers : other.userDefined = table.userDefined)
    (hdirect : table.hasUserRule source target = true) :
    other.convert graph source target = table.convert graph source target := by
  have hrules : other.rulesFrom source = table.rulesFrom source := by
    rw [rulesFrom, husers, rulesFrom]
  obtain ⟨rule, hrule, htarget⟩ := List.any_eq_true.mp hdirect
  -- The straight route is there in both tables, and it beats all routes with a further step.
  have hexact : ∀ current : ConversionTable, rule ∈ current.rulesFrom source →
      selectRoute (current.userRoutes graph source target) =
        selectRoute (((current.rulesFrom source).filter (·.target = target)).map .userOnly) := by
    intro current hmem
    rw [← filter_userRoutes]
    apply selectRoute_of_exact
    refine ⟨.userOnly rule, List.mem_filterMap.mpr ⟨rule, hmem, ?_⟩, rfl⟩
    rw [routeThrough, if_pos (by simpa using htarget)]
  rw [convert, convert, if_neg hne, if_neg hne, step?, step?, hnone, hother,
    hexact table hrule, hexact other (hrules ▸ hrule), hrules]

/-- A configured step is taken only where a standard rule stands for the pair. -/
theorem convert_ne_configured (hne : source ≠ target)
    (hnone : table.standardKind? source target = none) (kind : RuleKind) :
    table.convert graph source target ≠
      .ok ⟨source, target, .standardOnly ⟨.configured kind, source, target⟩⟩ := by
  rw [convert, if_neg hne, step?, hnone]
  by_cases hderives : graph.derives source target = true
  · simp [hderives]
  · intro hsame
    simp only [hderives, Bool.false_eq_true, if_false] at hsame
    cases hselect : selectRoute (table.userRoutes graph source target) with
    | error failure =>
        rw [hselect] at hsame
        cases hsame
    | ok route =>
        have huser := isSome_userRule?_of_mem_userRoutes (mem_of_selectRoute hselect)
        rw [hselect] at hsame
        injection hsame with hsame
        injection hsame with _ _ hroute
        rw [hroute] at huser
        cases huser

end Convert

end ConversionTable

/-! ## Precedence over the preset -/

namespace RuleBook

/-- A rule of some kind is written for this pair of types. -/
def HasRule (rules : RuleBook) (source target : Fingerprint) : Prop :=
  ∃ written ∈ rules.promotion ++ rules.standard ++ rules.userDefined,
    written.Joins source target

/-- A user-defined rule is written for this pair of types. -/
def HasUserRule (rules : RuleBook) (source target : Fingerprint) : Prop :=
  ∃ written ∈ rules.userDefined, written.Joins source target

instance (rules : RuleBook) (source target : Fingerprint) :
    Decidable (rules.HasRule source target) :=
  inferInstanceAs (Decidable (∃ written ∈ _, _))

instance (rules : RuleBook) (source target : Fingerprint) :
    Decidable (rules.HasUserRule source target) :=
  inferInstanceAs (Decidable (∃ written ∈ _, _))

namespace Recorded

variable {rules : RuleBook} {table : ConversionTable} {source target : Fingerprint}

theorem ne_of_hasRule (hrecorded : rules.Recorded table) (hrule : rules.HasRule source target) :
    source ≠ target := by
  rintro rfl
  obtain ⟨written, hwritten, hjoins⟩ := hrule
  exact hrecorded.proper written hwritten source hjoins

/-- A pair with a written rule has a standard rule, unless a user-defined rule is written. -/
theorem standardKind?_eq_none_iff (hrecorded : rules.Recorded table)
    (hrule : rules.HasRule source target) :
    table.standardKind? source target = none ↔ rules.HasUserRule source target := by
  constructor
  · intro hnone
    obtain ⟨written, hwritten, hjoins⟩ := hrule
    have hkind : ∀ kind, written ∉ rules.ofKind kind := by
      intro kind hmem
      have hsome := (hrecorded.standard_iff source target kind).mpr ⟨written, hmem, hjoins⟩
      rw [hnone] at hsome
      cases hsome
    simp only [List.mem_append] at hwritten
    rcases hwritten with (hwritten | hwritten) | hwritten
    · exact absurd hwritten (hkind .promotion)
    · exact absurd hwritten (hkind .standard)
    · exact ⟨written, hwritten, hjoins⟩
  · rintro ⟨written, hwritten, hjoins⟩
    exact hrecorded.apart written hwritten source target hjoins

theorem hasUserRule (hrecorded : rules.Recorded table)
    (huser : rules.HasUserRule source target) : table.hasUserRule source target = true := by
  obtain ⟨written, hwritten, hsource, htarget⟩ := huser
  have hmem := (hrecorded.user_iff written.userRule).mpr ⟨written, hwritten, rfl⟩
  exact List.any_eq_true.mpr
    ⟨written.userRule, List.mem_filter.mpr ⟨hmem, decide_eq_true hsource⟩, decide_eq_true htarget⟩

/-- The preset changes the conversion of a pair with a written rule exactly if the rule is
user-defined and goes from a scalar to a scalar. -/
theorem convert_fillScalars_eq_iff (hrecorded : rules.Recorded table)
    (hrule : rules.HasRule source target) (graph : ScopeGraph) :
    table.fillScalars.convert graph source target = table.convert graph source target ↔
      ¬ (rules.HasUserRule source target ∧ source.IsScalar ∧ target.IsScalar) := by
  have hne := hrecorded.ne_of_hasRule hrule
  have hnone := hrecorded.standardKind?_eq_none_iff hrule
  by_cases huser : rules.HasUserRule source target
  · rw [← hnone] at huser
    have hfilled := ConversionTable.isSome_standardKind?_fillScalars_iff hne huser
    by_cases hscalars : source.IsScalar ∧ target.IsScalar
    · -- The preset's rule is asked before the written one.
      obtain ⟨kind, hkind⟩ := Option.isSome_iff_exists.mp (hfilled.mpr hscalars)
      rw [ConversionTable.convert_of_standardKind? hne hkind]
      simp only [hnone.mp huser, hscalars, and_self, not_true, iff_false]
      exact (ConversionTable.convert_ne_configured hne huser kind).symm
    · have hstill : table.fillScalars.standardKind? source target = none := by
        rw [← Option.not_isSome_iff_eq_none, hfilled]
        exact hscalars
      -- The preset may open routes through scalars, but the written rule goes straight.
      refine iff_of_true ?_ fun hboth => hscalars hboth.2
      exact ConversionTable.convert_eq_of_direct hne huser hstill
        (ConversionTable.userDefined_fillScalars table) (hrecorded.hasUserRule (hnone.mp huser))
  · -- A promotion or a standard rule is written, and it stays.
    obtain ⟨kind, hkind⟩ := Option.ne_none_iff_exists'.mp fun h => huser (hnone.mp h)
    refine iff_of_true ?_ fun hboth => huser hboth.1
    rw [ConversionTable.convert_of_standardKind? hne hkind,
      ConversionTable.convert_of_standardKind? hne
        (ConversionTable.standardKind?_fillScalars_of_some hkind)]

end Recorded

/-- With and without the preset, a rule book gives the same conversion for a pair it has a
written rule for, except where a user-defined rule goes from a scalar to a scalar. -/
theorem written_rules_precede_preset_iff {rules : RuleBook} {table : ConversionTable}
    (hbuild : rules.build = .ok table) {source target : Fingerprint}
    (hrule : rules.HasRule source target) :
    ∃ plain filled, { rules with scalarPreset := false }.build = .ok plain ∧
      { rules with scalarPreset := true }.build = .ok filled ∧
      ∀ graph : ScopeGraph,
        filled.convert graph source target = plain.convert graph source target ↔
          ¬ (rules.HasUserRule source target ∧ source.IsScalar ∧ target.IsScalar) := by
  obtain ⟨plain, hwritten, _⟩ := Traversal.bind_eq_ok_iff.mp hbuild
  refine ⟨plain, plain.fillScalars, ?_, ?_, ?_⟩
  · exact Traversal.bind_eq_ok_iff.mpr ⟨plain, hwritten, rfl⟩
  · exact Traversal.bind_eq_ok_iff.mpr ⟨plain, hwritten, rfl⟩
  · exact (recorded_of_buildWritten hwritten).convert_fillScalars_eq_iff hrule

/-- Lengths go to both floating scalars, so that the preset opens a second route to each. -/
def lengthRules : RuleBook where
  scalarPreset := true
  promotion := [⟨"long", "int", none⟩]
  standard := [⟨"int", "Length", none⟩]
  userDefined := [⟨"Length", "float", none⟩, ⟨"Length", "double", some "metres"⟩]

theorem lengthRules_precede_preset :
    ∃ plain filled, { lengthRules with scalarPreset := false }.build = .ok plain ∧
      { lengthRules with scalarPreset := true }.build = .ok filled ∧
      ∀ graph : ScopeGraph,
        filled.convert graph (.ofName "Length") (.ofName "double") =
          plain.convert graph (.ofName "Length") (.ofName "double") := by
  have hok : lengthRules.build.toOption.isSome = true := by decide +kernel
  have hrule : lengthRules.HasRule (.ofName "Length") (.ofName "double") := by decide +kernel
  have hscalar : ¬ (Fingerprint.ofName "Length").IsScalar := by decide +kernel
  cases hbuild : lengthRules.build with
  | error failure =>
      rw [hbuild] at hok
      cases hok
  | ok table =>
      obtain ⟨plain, filled, hplain, hfilled, hsame⟩ :=
        written_rules_precede_preset_iff hbuild hrule
      exact ⟨plain, filled, hplain, hfilled,
        fun graph => (hsame graph).mpr fun hboth => hscalar hboth.2.1⟩

/-- A labelled conversion from one scalar to another. -/
def widening : RuleBook where
  scalarPreset := true
  promotion := []
  standard := []
  userDefined := [⟨"int", "long", some "widen"⟩]

/-- The preset's standard conversion takes the place of the written rule. -/
theorem widening_lost_to_preset :
    (build { widening with scalarPreset := false }).map
        (fun plain => plain.convert ScopeGraph.withScalars (.ofName "int") (.ofName "long")) =
      .ok (.ok ⟨.ofName "int", .ofName "long",
        .userOnly ⟨.ofName "int", .ofName "long", some "widen"⟩⟩) ∧
    (build { widening with scalarPreset := true }).map
        (fun filled => filled.convert ScopeGraph.withScalars (.ofName "int") (.ofName "long")) =
      .ok (.ok ⟨.ofName "int", .ofName "long",
        .standardOnly ⟨.configured .standard, .ofName "int", .ofName "long"⟩⟩) := by
  decide +kernel

end RuleBook
end CallResolution
