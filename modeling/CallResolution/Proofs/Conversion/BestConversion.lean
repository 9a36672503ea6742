import Mathlib.Data.List.Forall2
import Mathlib.Tactic
import CallResolution.Proofs.Conversion.Selection
import CallResolution.Proofs.Scope.Derivation
import CallResolution.Settings.Rules

/-!
# The best implicit conversion

What `convert` answers, said without its search.  A type converts to itself.  Otherwise a
single standard step is taken wherever there is one.  Otherwise the user-defined rules that
land on the target or one standard step before it are the routes, and the foremost of them is
taken if it is the only one.

Whatever is found is a chain of steps that the table or the bases of a class allow, with at
most one user-defined step among them.
-/

namespace CallResolution
namespace ConversionTable

/-! ## Steps and routes -/

/-- The standard step from one type to another: a configured rule or, failing that, the way
from a class to one of its bases. -/
inductive StandardStep (table : ConversionTable) (graph : ScopeGraph)
    (source target : Fingerprint) : Step → Prop
  | configured (kind : RuleKind) (hkind : table.standardKind? source target = some kind) :
      StandardStep table graph source target ⟨.configured kind, source, target⟩
  | derivedToBase (hnone : table.standardKind? source target = none)
      (hderives : graph.derives source target = true) :
      StandardStep table graph source target ⟨.derivedToBase, source, target⟩

/-- The route to `target` that a user-defined rule opens. -/
inductive Opens (table : ConversionTable) (graph : ScopeGraph) (target : Fingerprint)
    (rule : UserRule) : Route → Prop
  | landing (hlands : rule.target = target) : Opens table graph target rule (.userOnly rule)
  | onwards (step : Step) (hshort : rule.target ≠ target)
      (hstep : table.StandardStep graph rule.target target step) :
      Opens table graph target rule (.userThenStandard rule step)

section Routes

variable (table : ConversionTable) (graph : ScopeGraph) {source target : Fingerprint}

theorem step?_eq_some_iff (step : Step) :
    table.step? graph source target = some step ↔
      table.StandardStep graph source target step := by
  constructor
  · intro hstep
    unfold step? at hstep
    split at hstep
    · rename_i kind hkind
      obtain rfl := Option.some.inj hstep
      exact .configured kind hkind
    · rename_i hnone
      obtain ⟨hderives, hsome⟩ := (Option.ite_none_right_eq_some ..).mp hstep
      obtain rfl := Option.some.inj hsome
      exact .derivedToBase hnone hderives
  · intro hstep
    cases hstep with
    | configured kind hkind => rw [step?, hkind]
    | derivedToBase hnone hderives => rw [step?, hnone, hderives]; rfl

instance decidableExistsStep (source target : Fingerprint) :
    Decidable (∃ step, table.StandardStep graph source target step) :=
  decidable_of_iff ((table.step? graph source target).isSome = true)
    (by rw [Option.isSome_iff_exists]; simp only [step?_eq_some_iff])

/-- The user-defined rules out of a type that land on the target, or on a type one standard
step before it. -/
def leadingRules (source target : Fingerprint) : List UserRule :=
  table.userDefined.filter fun rule => rule.source = source ∧
    (rule.target = target ∨ ∃ step, table.StandardStep graph rule.target target step)

theorem routeThrough_eq_some_iff (rule : UserRule) (route : Route) :
    table.routeThrough graph target rule = some route ↔
      table.Opens graph target rule route := by
  unfold routeThrough
  constructor
  · intro hroute
    split at hroute
    · rename_i hlands
      obtain rfl := Option.some.inj hroute
      exact .landing hlands
    · rename_i hshort
      obtain ⟨step, hstep, rfl⟩ := Option.map_eq_some_iff.mp hroute
      exact .onwards step hshort ((table.step?_eq_some_iff graph step).mp hstep)
  · intro hopens
    cases hopens with
    | landing hlands => rw [if_pos hlands]
    | onwards step hshort hstep =>
        rw [if_neg hshort, (table.step?_eq_some_iff graph step).mpr hstep]
        rfl

theorem isSome_routeThrough_iff (rule : UserRule) :
    (table.routeThrough graph target rule).isSome = true ↔
      rule.target = target ∨ ∃ step, table.StandardStep graph rule.target target step := by
  rw [Option.isSome_iff_exists]
  simp only [routeThrough_eq_some_iff]
  constructor
  · rintro ⟨route, hlands | ⟨step, _, hstep⟩⟩
    · exact Or.inl hlands
    · exact Or.inr ⟨step, hstep⟩
  · intro hleads
    by_cases hlands : rule.target = target
    · exact ⟨_, .landing hlands⟩
    · obtain ⟨step, hstep⟩ := hleads.resolve_left hlands
      exact ⟨_, .onwards step hlands hstep⟩

/-- Each leading rule opens one route, and there are no others. -/
theorem opens_leadingRules (source target : Fingerprint) :
    List.Forall₂ (table.Opens graph target) (table.leadingRules graph source target)
      (table.userRoutes graph source target) := by
  have hsplit : table.leadingRules graph source target =
      (table.rulesFrom source).filter fun rule =>
        (table.routeThrough graph target rule).isSome := by
    rw [leadingRules, rulesFrom, List.filter_filter]
    apply List.filter_congr
    intro rule _
    rw [Bool.eq_iff_iff, decide_eq_true_iff, Bool.and_eq_true, decide_eq_true_iff,
      isSome_routeThrough_iff, and_comm]
  rw [hsplit, userRoutes]
  induction table.rulesFrom source with
  | nil => exact .nil
  | cons rule rest ih =>
      cases hroute : table.routeThrough graph target rule with
      | none => simpa [hroute] using ih
      | some route =>
          have hopens := (table.routeThrough_eq_some_iff graph rule route).mp hroute
          simpa [hroute] using And.intro hopens ih

end Routes

end ConversionTable

/-! ## Chains of steps -/

/-- One step of a route. -/
inductive Leg where
  | standard (step : Step)
  | user (rule : UserRule)
  deriving DecidableEq, Repr

namespace Leg

def source : Leg → Fingerprint
  | .standard step => step.source
  | .user rule => rule.source

def target : Leg → Fingerprint
  | .standard step => step.target
  | .user rule => rule.target

def isUser : Leg → Bool
  | .standard _ => false
  | .user _ => true

/-- The step is configured, or leads from a class to one of its bases. -/
def Allowed (table : ConversionTable) (graph : ScopeGraph) : Leg → Prop
  | .standard step => table.StandardStep graph step.source step.target step
  | .user rule => rule ∈ table.userDefined

/-- The steps lead from one type to another, each from where the one before it ends. -/
def Chain : Fingerprint → List Leg → Fingerprint → Prop
  | here, [], goal => here = goal
  | here, leg :: rest, goal => leg.source = here ∧ Chain leg.target rest goal

end Leg

/-- The steps of a route, in order. -/
def Route.legs : Route → List Leg
  | .trivial => []
  | .standardOnly step => [.standard step]
  | .userOnly rule => [.user rule]
  | .userThenStandard rule step => [.user rule, .standard step]

/-- The conversion is made of allowed steps from its source to its target, of which at most
one is user-defined. -/
structure Conversion.Sound (conversion : Conversion) (table : ConversionTable)
    (graph : ScopeGraph) : Prop where
  chain : Leg.Chain conversion.source conversion.route.legs conversion.target
  allowed : ∀ leg ∈ conversion.route.legs, leg.Allowed table graph
  one_user : conversion.route.legs.countP Leg.isUser ≤ 1

namespace ConversionTable

section Sound

variable {table : ConversionTable} {graph : ScopeGraph} {source target : Fingerprint}

theorem StandardStep.ends {step : Step} (hstep : table.StandardStep graph source target step) :
    step.source = source ∧ step.target = target := by
  cases hstep with
  | configured | derivedToBase => exact ⟨rfl, rfl⟩

theorem StandardStep.allowed {step : Step}
    (hstep : table.StandardStep graph source target step) :
    (Leg.standard step).Allowed table graph := by
  obtain ⟨rfl, rfl⟩ := hstep.ends
  exact hstep

theorem StandardStep.sound {step : Step} (hstep : table.StandardStep graph source target step) :
    Conversion.Sound ⟨source, target, .standardOnly step⟩ table graph where
  chain := hstep.ends
  allowed leg hleg := by
    rw [List.mem_singleton.mp hleg]
    exact hstep.allowed
  one_user := Nat.zero_le 1

theorem Opens.sound {rule : UserRule} {route : Route}
    (hopens : table.Opens graph target rule route) (hrule : rule ∈ table.userDefined)
    (hsource : rule.source = source) :
    Conversion.Sound ⟨source, target, route⟩ table graph := by
  cases hopens with
  | landing hlands =>
      refine ⟨⟨hsource, hlands⟩, ?_, Nat.le_refl 1⟩
      intro leg hleg
      rw [List.mem_singleton.mp hleg]
      exact hrule
  | onwards step _ hstep =>
      refine ⟨⟨hsource, hstep.ends⟩, ?_, Nat.le_refl 1⟩
      intro leg hleg
      rcases List.mem_cons.mp hleg with rfl | hleg
      · exact hrule
      · rw [List.mem_singleton.mp hleg]
        exact hstep.allowed

theorem sound_of_mem_userRoutes {route : Route}
    (hroute : route ∈ table.userRoutes graph source target) :
    Conversion.Sound ⟨source, target, route⟩ table graph := by
  obtain ⟨rule, hrule, hthrough⟩ := List.mem_filterMap.mp hroute
  obtain ⟨hmem, hsource⟩ := List.mem_filter.mp hrule
  exact ((table.routeThrough_eq_some_iff graph rule route).mp hthrough).sound hmem
    (by simpa using hsource)

end Sound

/-! ## What is converted -/

section Convert

variable {table : ConversionTable} {graph : ScopeGraph} {source target : Fingerprint}

theorem convert_of_step (hne : source ≠ target) {step : Step}
    (hstep : table.StandardStep graph source target step) :
    table.convert graph source target = .ok ⟨source, target, .standardOnly step⟩ := by
  rw [convert, if_neg hne, (table.step?_eq_some_iff graph step).mpr hstep]

theorem convert_of_no_step (hne : source ≠ target)
    (hnone : ∀ step, ¬ table.StandardStep graph source target step) :
    table.convert graph source target =
      (selectRoute (table.userRoutes graph source target)).map (⟨source, target, ·⟩) := by
  have hstep : table.step? graph source target = none := by
    rw [Option.eq_none_iff_forall_ne_some]
    intro step hstep
    exact hnone step ((table.step?_eq_some_iff graph step).mp hstep)
  rw [convert, if_neg hne, hstep]

theorem convert_sound {conversion : Conversion}
    (hconvert : table.convert graph source target = .ok conversion) :
    conversion.source = source ∧ conversion.target = target ∧
      conversion.Sound table graph := by
  by_cases hne : source = target
  · rw [convert, if_pos hne] at hconvert
    obtain rfl := Except.ok.inj hconvert
    refine ⟨rfl, hne, rfl, ?_, Nat.zero_le 1⟩
    intro leg hleg
    cases hleg
  · by_cases hstep : ∃ step, table.StandardStep graph source target step
    · obtain ⟨step, hstep⟩ := hstep
      rw [convert_of_step hne hstep] at hconvert
      obtain rfl := Except.ok.inj hconvert
      exact ⟨rfl, rfl, hstep.sound⟩
    · rw [convert_of_no_step hne (not_exists.mp hstep)] at hconvert
      cases hselect : selectRoute (table.userRoutes graph source target) with
      | error failure =>
          rw [hselect] at hconvert
          cases hconvert
      | ok route =>
          rw [hselect] at hconvert
          obtain rfl := Except.ok.inj hconvert
          exact ⟨rfl, rfl, sound_of_mem_userRoutes (mem_of_selectRoute hselect)⟩

end Convert

/-- In a built graph there is a standard step exactly along a configured rule, and from a class
to what its recorded bases lead to. -/
theorem exists_standardStep_iff (table : ConversionTable) {graph : ScopeGraph}
    (hbuilt : graph.Built) (source target : Fingerprint) :
    (∃ step, table.StandardStep graph source target step) ↔
      (∃ kind, table.standardKind? source target = some kind) ∨
        Relation.TransGen graph.HasBase source target := by
  rw [← ScopeGraph.derives_iff_bases hbuilt]
  constructor
  · rintro ⟨_, ⟨kind, hkind⟩ | ⟨_, hderives⟩⟩
    · exact Or.inl ⟨kind, hkind⟩
    · exact Or.inr hderives
  · intro hleads
    cases hkind : table.standardKind? source target with
    | some kind => exact ⟨_, .configured kind hkind⟩
    | none => exact ⟨_, .derivedToBase hkind (hleads.resolve_left (by simp [hkind]))⟩

/-- A type converts to itself, else by a standard step, else by the foremost of the routes that
user-defined rules open, and by nothing else. -/
theorem convert_finds_best_conversion (table : ConversionTable) (graph : ScopeGraph)
    (source target : Fingerprint) :
    List.Forall₂ (table.Opens graph target) (table.leadingRules graph source target)
      (table.userRoutes graph source target) ∧
    (source = target → table.convert graph source target = .ok (.identity source)) ∧
    (source ≠ target → ∀ step, table.StandardStep graph source target step →
      table.convert graph source target = .ok ⟨source, target, .standardOnly step⟩) ∧
    (source ≠ target → (∀ step, ¬ table.StandardStep graph source target step) →
      (table.convert graph source target = .error .noConversion ↔
        table.leadingRules graph source target = []) ∧
      (∀ route, table.convert graph source target = .ok ⟨source, target, route⟩ ↔
        Route.foremost (table.userRoutes graph source target) = [route]) ∧
      (∀ count, table.convert graph source target = .error (.ambiguous count) ↔
        2 ≤ count ∧ (Route.foremost (table.userRoutes graph source target)).length = count)) ∧
    (∀ conversion, table.convert graph source target = .ok conversion →
      conversion.source = source ∧ conversion.target = target ∧
        conversion.Sound table graph) ∧
    (graph.Built → ((∃ step, table.StandardStep graph source target step) ↔
      (∃ kind, table.standardKind? source target = some kind) ∨
        Relation.TransGen graph.HasBase source target)) := by
  have hopens := table.opens_leadingRules graph source target
  refine ⟨hopens, ?_, fun hne _ hstep => convert_of_step hne hstep, ?_,
    fun _ hconvert => convert_sound hconvert,
    fun hbuilt => table.exists_standardStep_iff hbuilt source target⟩
  · intro hsame
    rw [convert, if_pos hsame]
  · intro hne hnone
    have hempty : table.leadingRules graph source target = [] ↔
        table.userRoutes graph source target = [] := by
      rw [← List.length_eq_zero_iff, hopens.length_eq, List.length_eq_zero_iff]
    rw [convert_of_no_step hne hnone, hempty, ← selectRoute_eq_noConversion_iff]
    simp only [← selectRoute_eq_ok_iff, ← selectRoute_eq_ambiguous_iff]
    cases selectRoute (table.userRoutes graph source target) with
    | error failure => simp [Except.map]
    | ok route => simp [Except.map]

/-- A class with a base, and a type that has nothing to do with them. -/
def quantityGraph : ScopeGraph :=
  Command.runAll
    [.newClass ScopeId.root "Quantity" [],
      .newClass ScopeId.root "Length" [.ofName "Quantity"],
      .newType ScopeId.root "Reading"]
    ScopeGraph.withScalars

/-- A reading becomes a length, or in two ways a count, which is promoted to a quantity. -/
def readingRules : RuleBook where
  scalarPreset := false
  promotion := [⟨"Count", "Quantity", none⟩]
  standard := []
  userDefined := [⟨"Reading", "Length", none⟩, ⟨"Reading", "Count", some "round"⟩,
    ⟨"Reading", "Count", some "floor"⟩]

/-- The table that the rules of readings build. -/
def readingTable : ConversionTable :=
  readingRules.build.toOption.getD .empty

/-- Three routes lead from a reading to a quantity.  The one that ends with the way to a base
is worse than the two promotions, and those tie. -/
theorem reading_to_quantity_ambiguous :
    quantityGraph.Built ∧ readingRules.build = .ok readingTable ∧
    Relation.TransGen quantityGraph.HasBase (.ofName "Length") (.ofName "Quantity") ∧
    readingTable.convert quantityGraph (.ofName "Length") (.ofName "Quantity") =
      .ok ⟨.ofName "Length", .ofName "Quantity",
        .standardOnly ⟨.derivedToBase, .ofName "Length", .ofName "Quantity"⟩⟩ ∧
    readingTable.convert quantityGraph (.ofName "Reading") (.ofName "Length") =
      .ok ⟨.ofName "Reading", .ofName "Length",
        .userOnly ⟨.ofName "Reading", .ofName "Length", none⟩⟩ ∧
    (readingTable.leadingRules quantityGraph (.ofName "Reading") (.ofName "Quantity")).length = 3 ∧
    readingTable.convert quantityGraph (.ofName "Reading") (.ofName "Quantity") =
      .error (.ambiguous 2) := by
  have hbuilt : quantityGraph.Built := ⟨_, Or.inr rfl⟩
  obtain ⟨_, _, hstep, _, _, hbases⟩ := convert_finds_best_conversion readingTable quantityGraph
    (.ofName "Length") (.ofName "Quantity")
  obtain ⟨_, _, _, hdirect, _, _⟩ := convert_finds_best_conversion readingTable quantityGraph
    (.ofName "Reading") (.ofName "Length")
  obtain ⟨_, _, _, htied, _, _⟩ := convert_finds_best_conversion readingTable quantityGraph
    (.ofName "Reading") (.ofName "Quantity")
  have hnone : readingTable.standardKind? (.ofName "Length") (.ofName "Quantity") = none := by
    decide +kernel
  have hderived : readingTable.StandardStep quantityGraph (.ofName "Length") (.ofName "Quantity")
      ⟨.derivedToBase, .ofName "Length", .ofName "Quantity"⟩ :=
    .derivedToBase hnone (by decide +kernel)
  refine ⟨hbuilt, by decide +kernel, ?_, hstep (by decide +kernel) _ hderived, ?_,
    by decide +kernel, ?_⟩
  · exact ((hbases hbuilt).mp ⟨_, hderived⟩).resolve_left (by simp [hnone])
  · exact ((hdirect (by decide +kernel) (not_exists.mp (by decide +kernel))).2.1 _).mpr
      (by decide +kernel)
  · exact ((htied (by decide +kernel) (not_exists.mp (by decide +kernel))).2.2 2).mpr
      (by decide +kernel)

end ConversionTable
end CallResolution
