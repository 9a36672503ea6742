import Mathlib.Data.List.Sort
import Mathlib.Data.Prod.Lex
import Mathlib.Data.String.Basic
import Mathlib.Order.WithBot
import Mathlib.Tactic
import CallResolution.Proofs.Conversion.Preset

/-!
# A table is determined by its set of rules

A rule book builds exactly if no rule goes from a type to itself and no pair of types has
rules in two of its three lists.  Neither the order of the rules nor repetitions matter: they
change neither whether a table is built, nor its size, its routes or its conversions.

User-defined rules are held in ascending order without repetition, so their list is determined
by its members.  The list of standard rules is NOT: it keeps the order in which pairs were
first written.  But it has each pair once, and is only ever asked for the kind of a pair.
-/

namespace CallResolution

/-! ## The order of user-defined rules -/

namespace UserRule

/-- The place of a label among the labels; that of no label comes first. -/
def labelKey : Option String → WithBot String
  | none => ⊥
  | some label => label

/-- What rules are ordered by, as a value of a linear order. -/
def key (rule : UserRule) : ℕ ×ₗ ℕ ×ₗ WithBot String :=
  toLex (rule.source.bits.toNat, toLex (rule.target.bits.toNat, labelKey rule.via))

theorem labelPrecedes_iff (a b : Option String) :
    labelPrecedes a b = true ↔ labelKey a < labelKey b := by
  match a, b with
  | none, none => simp [labelPrecedes, labelKey]
  | none, some b => simp [labelPrecedes, labelKey]
  | some a, none => simp [labelPrecedes, labelKey]
  | some a, some b => simp [labelPrecedes, labelKey]

theorem labelKey_injective {a b : Option String} (hlabel : labelKey a = labelKey b) : a = b := by
  cases a with
  | none =>
      cases b with
      | none => rfl
      | some b => exact absurd hlabel.symm WithBot.coe_ne_bot
  | some a =>
      cases b with
      | none => exact absurd hlabel WithBot.coe_ne_bot
      | some b => exact congrArg some (WithBot.coe_injective hlabel)

theorem toNat_bits_eq_iff (a b : Fingerprint) : a.bits.toNat = b.bits.toNat ↔ a = b := by
  rw [UInt64.toNat_inj, Fingerprint.mk.injEq]

theorem precedes_iff (a b : UserRule) : a.precedes b = true ↔ a.key < b.key := by
  simp only [key, Prod.Lex.toLex_lt_toLex, toNat_bits_eq_iff, ← UInt64.lt_iff_toNat_lt]
  unfold precedes
  by_cases hsource : a.source = b.source
  · by_cases htarget : a.target = b.target
    · simp only [hsource, htarget, if_true, UInt64.lt_irrefl, true_and, false_or]
      exact labelPrecedes_iff a.via b.via
    · simp [hsource, htarget]
  · simp [hsource]

theorem key_injective {a b : UserRule} (hkey : a.key = b.key) : a = b := by
  obtain ⟨source, target, via⟩ := a
  obtain ⟨_, _, _⟩ := b
  obtain ⟨hsource, hrest⟩ := Prod.mk.inj (toLex.injective hkey)
  obtain ⟨htarget, hvia⟩ := Prod.mk.inj (toLex.injective hrest)
  obtain rfl := (toNat_bits_eq_iff _ _).mp hsource
  obtain rfl := (toNat_bits_eq_iff _ _).mp htarget
  obtain rfl := labelKey_injective hvia
  rfl

instance : Std.Irrefl fun a b : UserRule => a.precedes b = true where
  irrefl rule := by simp [precedes_iff]

instance : Std.Antisymm fun a b : UserRule => a.precedes b = true where
  antisymm a b hab hba := by
    rw [precedes_iff] at hab hba
    exact absurd hab hba.asymm

/-- Each rule comes before all that follow it; so none stands twice. -/
def Ascending (rules : List UserRule) : Prop :=
  rules.Pairwise fun a b => a.precedes b = true

theorem Ascending.insert {rules : List UserRule} (hrules : Ascending rules) (rule : UserRule) :
    Ascending (rule.insert rules) := by
  induction rules with
  | nil => exact List.pairwise_singleton _ _
  | cons first rest ih =>
      obtain ⟨hfirst, hrest⟩ := List.pairwise_cons.mp hrules
      unfold UserRule.insert
      split
      · exact hrules
      · rename_i hother
        split
        · rename_i hbefore
          refine List.pairwise_cons.mpr ⟨?_, hrules⟩
          intro later hlater
          rcases List.mem_cons.mp hlater with rfl | hlater
          · exact hbefore
          · have hnext := hfirst later hlater
            rw [precedes_iff] at hbefore hnext ⊢
            exact hbefore.trans hnext
        · rename_i hbehind
          refine List.pairwise_cons.mpr ⟨?_, ih hrest⟩
          intro later hlater
          rcases (mem_insert_iff rule later rest).mp hlater with rfl | hlater
          · -- The rule is neither this one nor before it, so it belongs behind it.
            rw [precedes_iff] at hbehind ⊢
            exact lt_of_le_of_ne (not_lt.mp hbehind) fun hkey =>
              hother (key_injective hkey.symm)
          · exact hfirst later hlater

theorem Ascending.eq_of_mem_iff {first second : List UserRule} (hfirst : Ascending first)
    (hsecond : Ascending second) (hsame : ∀ rule, rule ∈ first ↔ rule ∈ second) :
    first = second :=
  List.Subset.antisymm_of_pairwise hfirst hsecond (fun rule => (hsame rule).mp)
    fun rule => (hsame rule).mpr

end UserRule

/-! ## Tables that answer alike -/

namespace ConversionTable

/-- The pairs of types that have a standard rule. -/
def pairs (table : ConversionTable) : List (Fingerprint × Fingerprint) :=
  table.standard.map fun rule => (rule.source, rule.target)

/-- No pair has two standard rules, and the user-defined rules are in order. -/
structure Tidy (table : ConversionTable) : Prop where
  pairs_once : table.pairs.Nodup
  ascending : UserRule.Ascending table.userDefined

theorem mem_pairs_iff (table : ConversionTable) (source target : Fingerprint) :
    (source, target) ∈ table.pairs ↔ (table.standardKind? source target).isSome = true := by
  simp [pairs, standardKind?, List.find?_isSome]

theorem tidy_empty : empty.Tidy :=
  ⟨List.nodup_nil, List.Pairwise.nil⟩

theorem Tidy.fillStandard {table : ConversionTable} (htidy : table.Tidy) (rule : StandardRule) :
    (table.fillStandard rule).Tidy := by
  unfold ConversionTable.fillStandard
  cases hkind : table.standardKind? rule.source rule.target with
  | some kind => exact htidy
  | none =>
      refine ⟨?_, htidy.ascending⟩
      have hnew : (rule.source, rule.target) ∉ table.pairs := by
        rw [mem_pairs_iff, hkind]
        exact Bool.false_ne_true
      rw [pairs, List.map_append, List.map_singleton, List.nodup_append_comm]
      exact List.nodup_cons.mpr ⟨hnew, htidy.pairs_once⟩

theorem Tidy.fillScalars {table : ConversionTable} (htidy : table.Tidy) :
    table.fillScalars.Tidy := by
  unfold ConversionTable.fillScalars
  generalize scalarRules = rules
  induction rules generalizing table with
  | nil => exact htidy
  | cons rule rest ih => exact ih (htidy.fillStandard rule)

/-- The tables have the same kind of standard rule for every pair, and the same list of
user-defined rules. -/
structure Alike (table other : ConversionTable) : Prop where
  standardKind?_eq : ∀ source target,
    table.standardKind? source target = other.standardKind? source target
  userDefined_eq : table.userDefined = other.userDefined

namespace Alike

variable {table other : ConversionTable} (halike : table.Alike other)
include halike

theorem fillScalars : table.fillScalars.Alike other.fillScalars where
  standardKind?_eq source target := by
    rw [ConversionTable.fillScalars, ConversionTable.fillScalars,
      standardKind?_foldl_fillStandard, standardKind?_foldl_fillStandard,
      halike.standardKind?_eq]
  userDefined_eq := by
    rw [userDefined_fillScalars, userDefined_fillScalars, halike.userDefined_eq]

/-- The lists of standard rules have the same pairs, each once. -/
theorem size_eq (htable : table.Tidy) (hother : other.Tidy) : table.size = other.size := by
  have hpairs : table.pairs.Perm other.pairs := by
    rw [List.perm_ext_iff_of_nodup htable.pairs_once hother.pairs_once]
    rintro ⟨source, target⟩
    rw [mem_pairs_iff, mem_pairs_iff, halike.standardKind?_eq]
  have hlength : table.standard.length = other.standard.length := by
    simpa [pairs] using hpairs.length_eq
  rw [size, size, hlength, halike.userDefined_eq]

theorem step?_eq (graph : ScopeGraph) (source target : Fingerprint) :
    table.step? graph source target = other.step? graph source target := by
  rw [step?, step?, halike.standardKind?_eq]

theorem userRoutes_eq (graph : ScopeGraph) (source target : Fingerprint) :
    table.userRoutes graph source target = other.userRoutes graph source target := by
  have hthrough : table.routeThrough graph target = other.routeThrough graph target := by
    funext rule
    rw [routeThrough, routeThrough, halike.step?_eq]
  rw [userRoutes, userRoutes, rulesFrom, rulesFrom, halike.userDefined_eq, hthrough]

theorem convert_eq (graph : ScopeGraph) (source target : Fingerprint) :
    table.convert graph source target = other.convert graph source target := by
  rw [convert, convert, halike.step?_eq, halike.userRoutes_eq]

end Alike

end ConversionTable

/-! ## Written rules -/

namespace WrittenRule

/-- The pair of types that a rule is written for. -/
def pair (written : WrittenRule) : Fingerprint × Fingerprint :=
  (Fingerprint.ofName written.source, Fingerprint.ofName written.target)

theorem mem_map_pair_iff (written : List WrittenRule) (source target : Fingerprint) :
    (source, target) ∈ written.map pair ↔ ∃ rule ∈ written, rule.Joins source target := by
  simp [pair, Joins]

theorem tidy_of_addStandard {kind : RuleKind} {table grown : ConversionTable}
    {rule : WrittenRule} (hadd : rule.addStandard kind table = .ok grown) (htidy : table.Tidy) :
    grown.Tidy := by
  rw [addStandard_eq_ok_iff, ConversionTable.addStandard_eq_ok_iff] at hadd
  obtain ⟨_, _, _, rfl⟩ := hadd
  exact htidy.fillStandard _

theorem tidy_of_addUser {table grown : ConversionTable} {rule : WrittenRule}
    (hadd : rule.addUser table = .ok grown) (htidy : table.Tidy) : grown.Tidy := by
  rw [addUser_eq_ok_iff, ConversionTable.addUser_eq_ok_iff] at hadd
  obtain ⟨_, _, rfl⟩ := hadd
  exact ⟨htidy.pairs_once, htidy.ascending.insert _⟩

theorem pair_mem_of_foldlM {kind found : RuleKind} {written : List WrittenRule}
    {table grown : ConversionTable} {types : Fingerprint × Fingerprint}
    (hfold : written.foldlM (addStandard kind) table = .ok grown)
    (hfound : grown.standardKind? types.1 types.2 = some found) :
    table.standardKind? types.1 types.2 = some found ∨ types ∈ written.map pair := by
  obtain ⟨_, hkinds, _⟩ := standardKind?_of_foldlM hfold
  rcases (hkinds _ _ _).mp hfound with hfound | ⟨_, hwritten⟩
  · exact Or.inl hfound
  · exact Or.inr ((mem_map_pair_iff _ _ _).mpr hwritten)

/-- Standard rules of one kind are accepted if none goes from a type to itself and none is for
a pair that has a rule of the other kind. -/
theorem exists_foldlM_addStandard {kind : RuleKind} {written : List WrittenRule}
    {table : ConversionTable} (husers : table.userDefined = [])
    (hproper : ∀ rule ∈ written, rule.pair.1 ≠ rule.pair.2)
    (hagree : ∀ rule ∈ written, ∀ found ∈ table.standardKind? rule.pair.1 rule.pair.2,
      found = kind) :
    ∃ grown, written.foldlM (addStandard kind) table = .ok grown := by
  refine Traversal.exists_foldlM_eq_ok (motive := fun current => current.userDefined = [] ∧
    ∀ rule ∈ written, ∀ found ∈ current.standardKind? rule.pair.1 rule.pair.2,
      found = kind) ?_ ⟨husers, hagree⟩
  rintro rule hrule current ⟨husers, hagree⟩
  have hnone : current.hasUserRule rule.pair.1 rule.pair.2 = false := by
    simp [ConversionTable.hasUserRule, ConversionTable.rulesFrom, husers]
  refine ⟨current.fillStandard (rule.standardRule kind), ?_, ?_, ?_⟩
  · exact addStandard_eq_ok_iff.mpr (ConversionTable.addStandard_eq_ok_iff.mpr
      ⟨hproper rule hrule, hnone, hagree rule hrule, rfl⟩)
  · exact (ConversionTable.userDefined_fillStandard _ _).trans husers
  · intro other hother found hfound
    have hcases := (ConversionTable.standardKind?_fillStandard_eq_some_iff
      (hagree rule hrule) _ _ found).mp hfound
    rcases hcases with hfound | ⟨hfound, _⟩
    · exact hagree other hother found hfound
    · exact hfound

/-- User-defined rules are accepted if none goes from a type to itself and none is for a pair
that has a standard rule. -/
theorem exists_foldlM_addUser {written : List WrittenRule} {table : ConversionTable}
    (hproper : ∀ rule ∈ written, rule.pair.1 ≠ rule.pair.2)
    (hnone : ∀ rule ∈ written, table.standardKind? rule.pair.1 rule.pair.2 = none) :
    ∃ grown, written.foldlM addUser table = .ok grown := by
  refine Traversal.exists_foldlM_eq_ok (motive := fun current =>
    ∀ rule ∈ written, current.standardKind? rule.pair.1 rule.pair.2 = none) ?_ hnone
  intro rule hrule current hnone
  refine ⟨{ current with userDefined := rule.userRule.insert current.userDefined }, ?_, hnone⟩
  exact addUser_eq_ok_iff.mpr (ConversionTable.addUser_eq_ok_iff.mpr
    ⟨hproper rule hrule, hnone rule hrule, rfl⟩)

end WrittenRule

namespace RuleBook

open WrittenRule

/-- No rule goes from a type to itself, and no pair of types has rules in two of the lists. -/
structure Consistent (rules : RuleBook) : Prop where
  proper : ∀ written ∈ rules.promotion ++ rules.standard ++ rules.userDefined,
    written.pair.1 ≠ written.pair.2
  apart : [rules.promotion, rules.standard, rules.userDefined].Pairwise fun first second =>
    (first.map pair).Disjoint (second.map pair)

/-- The rule books have the same rules, in whatever order and however often. -/
structure SameRules (rules other : RuleBook) : Prop where
  scalarPreset_eq : rules.scalarPreset = other.scalarPreset
  promotion_iff : ∀ types, types ∈ rules.promotion.map pair ↔ types ∈ other.promotion.map pair
  standard_iff : ∀ types, types ∈ rules.standard.map pair ↔ types ∈ other.standard.map pair
  userDefined_iff : ∀ rule,
    rule ∈ rules.userDefined.map userRule ↔ rule ∈ other.userDefined.map userRule

/-! ## Which rule books build -/

section Build

variable {rules : RuleBook}

theorem Recorded.consistent {table : ConversionTable} (hrecorded : rules.Recorded table) :
    rules.Consistent where
  proper written hwritten hself := hrecorded.proper written hwritten written.pair.2 ⟨hself, rfl⟩
  apart := by
    have hkind : ∀ kind, ∀ types ∈ (rules.ofKind kind).map pair,
        table.standardKind? types.1 types.2 = some kind := fun kind types htypes =>
      (hrecorded.standard_iff _ _ kind).mpr ((mem_map_pair_iff _ _ _).mp htypes)
    have hnone : ∀ types ∈ rules.userDefined.map pair,
        table.standardKind? types.1 types.2 = none := by
      intro types htypes
      obtain ⟨written, hwritten, hjoins⟩ := (mem_map_pair_iff _ _ _).mp htypes
      exact hrecorded.apart written hwritten _ _ hjoins
    have hkinds : (rules.promotion.map pair).Disjoint (rules.standard.map pair) := by
      intro types hpromotion hstandard
      cases (hkind .promotion types hpromotion).symm.trans (hkind .standard types hstandard)
    have husers : ∀ kind, ((rules.ofKind kind).map pair).Disjoint
        (rules.userDefined.map pair) := by
      intro kind types hstandard huser
      cases (hkind kind types hstandard).symm.trans (hnone types huser)
    refine List.pairwise_cons.mpr ⟨?_, List.pairwise_pair.mpr (husers .standard)⟩
    intro later hlater
    rcases List.mem_pair.mp hlater with rfl | rfl
    · exact hkinds
    · exact husers .promotion

theorem Consistent.exists_buildWritten (hconsistent : rules.Consistent) :
    ∃ table, rules.buildWritten = .ok table := by
  have hproper := hconsistent.proper
  simp only [List.forall_mem_append] at hproper
  obtain ⟨hearlier, hlast⟩ := List.pairwise_cons.mp hconsistent.apart
  have hkinds := hearlier rules.standard List.mem_cons_self
  have hpromotions := hearlier rules.userDefined (List.mem_cons_of_mem _ List.mem_cons_self)
  have hstandards := List.pairwise_pair.mp hlast
  -- Each list goes into a table that has rules for the pairs of the lists before it only.
  obtain ⟨first, hfirst⟩ : ∃ first,
      rules.promotion.foldlM (addStandard .promotion) ConversionTable.empty = .ok first :=
    exists_foldlM_addStandard rfl hproper.1.1 fun rule hrule found hfound => by
      cases hfound
  have hfirstPairs : ∀ types kind, first.standardKind? types.1 types.2 = some kind →
      types ∈ rules.promotion.map pair := by
    intro types kind hkind
    rcases pair_mem_of_foldlM hfirst hkind with hempty | hmem
    · cases hempty
    · exact hmem
  obtain ⟨second, hsecond⟩ : ∃ second,
      rules.standard.foldlM (addStandard .standard) first = .ok second :=
    exists_foldlM_addStandard (standardKind?_of_foldlM hfirst).1 hproper.1.2
      fun rule hrule kind hkind =>
        absurd (List.mem_map_of_mem hrule) (hkinds (hfirstPairs rule.pair kind hkind))
  have hnone : ∀ rule ∈ rules.userDefined,
      second.standardKind? rule.pair.1 rule.pair.2 = none := by
    intro rule hrule
    refine Option.eq_none_iff_forall_ne_some.mpr fun kind hkind => ?_
    have hpair : rule.pair ∈ rules.userDefined.map pair := List.mem_map_of_mem hrule
    rcases pair_mem_of_foldlM hsecond hkind with hkind | hmem
    · exact hpromotions (hfirstPairs rule.pair kind hkind) hpair
    · exact hstandards hmem hpair
  obtain ⟨table, htable⟩ := exists_foldlM_addUser hproper.2 hnone
  exact ⟨table, Traversal.bind_eq_ok_iff.mpr
    ⟨first, hfirst, Traversal.bind_eq_ok_iff.mpr ⟨second, hsecond, htable⟩⟩⟩

theorem build_eq_ok_iff {table : ConversionTable} :
    rules.build = .ok table ↔ ∃ written, rules.buildWritten = .ok written ∧
      (if rules.scalarPreset then written.fillScalars else written) = table := by
  rw [build, Traversal.bind_eq_ok_iff]
  simp [pure, Except.pure]

theorem exists_build_iff : (∃ table, rules.build = .ok table) ↔ rules.Consistent := by
  constructor
  · rintro ⟨table, hbuild⟩
    obtain ⟨written, hwritten, _⟩ := build_eq_ok_iff.mp hbuild
    exact (recorded_of_buildWritten hwritten).consistent
  · intro hconsistent
    obtain ⟨written, hwritten⟩ := hconsistent.exists_buildWritten
    exact ⟨_, build_eq_ok_iff.mpr ⟨written, hwritten, rfl⟩⟩

theorem tidy_of_buildWritten {table : ConversionTable}
    (hbuild : rules.buildWritten = .ok table) : table.Tidy := by
  obtain ⟨first, hpromotion, hbuild⟩ := Traversal.bind_eq_ok_iff.mp hbuild
  obtain ⟨second, hstandard, huser⟩ := Traversal.bind_eq_ok_iff.mp hbuild
  have hfirst : first.Tidy := Traversal.foldlM_induct (fun _ _ _ => tidy_of_addStandard)
    ConversionTable.tidy_empty hpromotion
  have hsecond : second.Tidy := Traversal.foldlM_induct (fun _ _ _ => tidy_of_addStandard)
    hfirst hstandard
  exact Traversal.foldlM_induct (fun _ _ _ => tidy_of_addUser) hsecond huser

end Build

/-! ## Rule books with the same rules -/

namespace SameRules

variable {rules other : RuleBook} (hsame : rules.SameRules other)
include hsame

theorem userPair_iff (types : Fingerprint × Fingerprint) :
    types ∈ rules.userDefined.map pair ↔ types ∈ other.userDefined.map pair := by
  have hpair : pair = (fun rule : UserRule => (rule.source, rule.target)) ∘ userRule := rfl
  rw [hpair, ← List.map_map, ← List.map_map, List.mem_map, List.mem_map]
  simp only [hsame.userDefined_iff]

theorem consistent (hconsistent : rules.Consistent) : other.Consistent where
  proper written hwritten := by
    have hpair : written.pair ∈
        (rules.promotion ++ rules.standard ++ rules.userDefined).map pair := by
      have hwritten := List.mem_map_of_mem (f := pair) hwritten
      simp only [List.map_append, List.mem_append] at hwritten ⊢
      rwa [hsame.promotion_iff, hsame.standard_iff, hsame.userPair_iff]
    obtain ⟨twin, htwin, hequal⟩ := List.mem_map.mp hpair
    rw [← hequal]
    exact hconsistent.proper twin htwin
  apart := by
    have hapart := hconsistent.apart
    simp only [List.pairwise_cons, List.forall_mem_cons, List.Disjoint, hsame.promotion_iff,
      hsame.standard_iff, hsame.userPair_iff] at hapart
    simpa only [List.pairwise_cons, List.forall_mem_cons, List.Disjoint] using hapart

theorem symm : other.SameRules rules where
  scalarPreset_eq := hsame.scalarPreset_eq.symm
  promotion_iff types := (hsame.promotion_iff types).symm
  standard_iff types := (hsame.standard_iff types).symm
  userDefined_iff rule := (hsame.userDefined_iff rule).symm

theorem ofKind_iff (kind : RuleKind) (types : Fingerprint × Fingerprint) :
    types ∈ (rules.ofKind kind).map pair ↔ types ∈ (other.ofKind kind).map pair := by
  cases kind with
  | promotion => exact hsame.promotion_iff types
  | standard => exact hsame.standard_iff types

theorem alike_written {table reordered : ConversionTable} (htable : rules.buildWritten = .ok table)
    (hreordered : other.buildWritten = .ok reordered) : table.Alike reordered where
  standardKind?_eq source target := by
    refine Option.ext fun kind => ?_
    rw [(recorded_of_buildWritten htable).standard_iff, ← mem_map_pair_iff, hsame.ofKind_iff,
      mem_map_pair_iff, ← (recorded_of_buildWritten hreordered).standard_iff]
  userDefined_eq := by
    refine (tidy_of_buildWritten htable).ascending.eq_of_mem_iff
      (tidy_of_buildWritten hreordered).ascending fun rule => ?_
    rw [(recorded_of_buildWritten htable).user_iff, ← List.mem_map, hsame.userDefined_iff,
      List.mem_map, ← (recorded_of_buildWritten hreordered).user_iff]

theorem alike_and_tidy {table reordered : ConversionTable} (htable : rules.build = .ok table)
    (hreordered : other.build = .ok reordered) :
    table.Alike reordered ∧ table.Tidy ∧ reordered.Tidy := by
  obtain ⟨first, hfirst, rfl⟩ := build_eq_ok_iff.mp htable
  obtain ⟨second, hsecond, rfl⟩ := build_eq_ok_iff.mp hreordered
  have halike := hsame.alike_written hfirst hsecond
  have htidy := tidy_of_buildWritten hfirst
  have htidy' := tidy_of_buildWritten hsecond
  rw [hsame.scalarPreset_eq]
  split
  · exact ⟨halike.fillScalars, htidy.fillScalars, htidy'.fillScalars⟩
  · exact ⟨halike, htidy, htidy'⟩

end SameRules

/-- A rule book builds exactly if it is consistent.  Rule books with the same rules build
tables of the same size that have the same routes and conversions, or build none. -/
theorem table_determined_by_rule_sets (rules : RuleBook) :
    ((∃ table, rules.build = .ok table) ↔ rules.Consistent) ∧
      ∀ other, rules.SameRules other →
        ((∃ table, rules.build = .ok table) ↔ ∃ table, other.build = .ok table) ∧
          ∀ table reordered, rules.build = .ok table → other.build = .ok reordered →
            table.size = reordered.size ∧
              ∀ (graph : ScopeGraph) (source target : Fingerprint),
                table.userRoutes graph source target =
                    reordered.userRoutes graph source target ∧
                  table.convert graph source target = reordered.convert graph source target := by
  refine ⟨exists_build_iff, fun other hsame => ⟨?_, fun table reordered htable hreordered => ?_⟩⟩
  · rw [exists_build_iff, exists_build_iff]
    exact ⟨hsame.consistent, hsame.symm.consistent⟩
  · obtain ⟨halike, htidy, htidy'⟩ := hsame.alike_and_tidy htable hreordered
    exact ⟨halike.size_eq htidy htidy', fun graph source target =>
      ⟨halike.userRoutes_eq graph source target, halike.convert_eq graph source target⟩⟩

/-- A coin is worth an amount of cents, and of euros; cents become euros. -/
def coinRules : RuleBook where
  scalarPreset := true
  promotion := [⟨"Cent", "Euro", none⟩]
  standard := [⟨"Euro", "double", none⟩]
  userDefined := [⟨"Coin", "Euro", some "value"⟩, ⟨"Coin", "Cent", none⟩]

/-- The rules of coins in another order, two of them written twice. -/
def coinRulesRepeated : RuleBook where
  scalarPreset := true
  promotion := [⟨"Cent", "Euro", some "rate"⟩, ⟨"Cent", "Euro", none⟩]
  standard := [⟨"Euro", "double", none⟩]
  userDefined := [⟨"Coin", "Cent", none⟩, ⟨"Coin", "Euro", some "value"⟩, ⟨"Coin", "Cent", none⟩]

theorem coinRules_sameRules : coinRules.SameRules coinRulesRepeated where
  scalarPreset_eq := rfl
  promotion_iff types := by simp [coinRules, coinRulesRepeated, pair]
  standard_iff types := Iff.rfl
  userDefined_iff rule := by
    simp only [coinRules, coinRulesRepeated, List.map_cons, List.map_nil, List.mem_cons,
      List.not_mem_nil, or_false]
    exact ⟨Or.inr, fun hrule => hrule.elim Or.inr id⟩

/-- The routes from a coin to euros: by its value, and through cents. -/
def coinRoutes : List Route :=
  [.userOnly ⟨.ofName "Coin", .ofName "Euro", some "value"⟩,
    .userThenStandard ⟨.ofName "Coin", .ofName "Cent", none⟩
      ⟨.configured .promotion, .ofName "Cent", .ofName "Euro"⟩]

/-- Each table has the four rules that were written, once, and the forty-two of the preset.  Both
routes to euros start with a user-defined rule that the table has stored. -/
theorem coinRules_tables_agree :
    ∃ table reordered, coinRules.build = .ok table ∧ coinRulesRepeated.build = .ok reordered ∧
      table.size = 4 + 42 ∧ reordered.size = 4 + 42 ∧
      table.userRoutes .empty (.ofName "Coin") (.ofName "Euro") = coinRoutes ∧
      reordered.userRoutes .empty (.ofName "Coin") (.ofName "Euro") = coinRoutes ∧
      ∀ (graph : ScopeGraph) (source target : Fingerprint),
        table.userRoutes graph source target = reordered.userRoutes graph source target ∧
          table.convert graph source target = reordered.convert graph source target := by
  have hstored : coinRules.build.map (fun table =>
      (table.size, table.userRoutes .empty (.ofName "Coin") (.ofName "Euro"))) =
        .ok (4 + 42, coinRoutes) := by
    decide +kernel
  obtain ⟨hboth, hagree⟩ :=
    (table_determined_by_rule_sets coinRules).2 coinRulesRepeated coinRules_sameRules
  cases htable : coinRules.build with
  | error failure =>
      rw [htable] at hstored
      cases hstored
  | ok table =>
      rw [htable] at hstored
      obtain ⟨hsize, hroutes⟩ := Prod.mk.inj (Except.ok.inj hstored)
      obtain ⟨reordered, hreordered⟩ := hboth.mp ⟨table, htable⟩
      obtain ⟨hsame, hanswers⟩ := hagree table reordered htable hreordered
      exact ⟨table, reordered, rfl, hreordered, hsize, hsame.symm.trans hsize, hroutes,
        (hanswers _ _ _).1.symm.trans hroutes, hanswers⟩

end RuleBook
end CallResolution
