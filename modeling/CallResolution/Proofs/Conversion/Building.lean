import Mathlib.Tactic
import CallResolution.Proofs.Traversal
import CallResolution.Settings.Rules

/-!
# What a rule book puts into a table

The written rules of a rule book go into the table one after the other.  If none of them is
refused, the table has a standard rule of a kind for a pair exactly if a rule of that kind
was written for it, and it has exactly the user-defined rules that were written.  No pair
has rules of two kinds, and no rule goes from a type to itself.

The scalar preset is not looked at here.
-/

namespace CallResolution

namespace UserRule

theorem mem_insert_iff (rule other : UserRule) (rules : List UserRule) :
    other ∈ rule.insert rules ↔ other = rule ∨ other ∈ rules := by
  induction rules with
  | nil => simp [insert]
  | cons first rest ih =>
      unfold insert
      split
      · rename_i hsame
        simp [hsame]
      · split
        · simp
        · rw [List.mem_cons, ih, List.mem_cons, or_left_comm]

end UserRule

namespace ConversionTable

/-! ## One rule -/

variable {table grown : ConversionTable}

/-- A pair that has a standard rule keeps it, whatever is filled in. -/
theorem standardKind?_fillStandard (table : ConversionTable) (rule : StandardRule)
    (source target : Fingerprint) :
    (table.fillStandard rule).standardKind? source target =
      (table.standardKind? source target).or
        (if rule.source = source ∧ rule.target = target then some rule.kind else none) := by
  unfold fillStandard
  cases hkind : table.standardKind? rule.source rule.target with
  | some kind =>
      by_cases hpair : rule.source = source ∧ rule.target = target
      · obtain ⟨rfl, rfl⟩ := hpair
        simp [hkind]
      · simp [hpair]
  | none =>
      simp only [standardKind?, List.find?_append, Option.map_or]
      by_cases hpair : rule.source = source ∧ rule.target = target
      · simp [hpair]
      · simp [hpair]

/-- A rule that agrees with what stands for its pair adds the pair and nothing else. -/
theorem standardKind?_fillStandard_eq_some_iff {rule : StandardRule}
    (hagree : ∀ kind ∈ table.standardKind? rule.source rule.target, kind = rule.kind)
    (source target : Fingerprint) (found : RuleKind) :
    (table.fillStandard rule).standardKind? source target = some found ↔
      table.standardKind? source target = some found ∨
        found = rule.kind ∧ rule.source = source ∧ rule.target = target := by
  rw [standardKind?_fillStandard]
  by_cases hpair : rule.source = source ∧ rule.target = target
  · obtain ⟨rfl, rfl⟩ := hpair
    cases hkind : table.standardKind? rule.source rule.target with
    | none => simp [eq_comm]
    | some kind =>
        obtain rfl := hagree kind hkind
        simp [eq_comm]
  · simp [hpair]

theorem userDefined_fillStandard (table : ConversionTable) (rule : StandardRule) :
    (table.fillStandard rule).userDefined = table.userDefined := by
  unfold fillStandard
  split <;> rfl

theorem addStandard_eq_ok_iff {rule : StandardRule} :
    table.addStandard rule = .ok grown ↔
      rule.source ≠ rule.target ∧ table.hasUserRule rule.source rule.target = false ∧
        (∀ kind ∈ table.standardKind? rule.source rule.target, kind = rule.kind) ∧
          table.fillStandard rule = grown := by
  unfold addStandard
  by_cases hself : rule.source = rule.target
  · simp [hself]
  · rw [if_neg hself]
    cases table.hasUserRule rule.source rule.target with
    | true => simp
    | false =>
        cases hkind : table.standardKind? rule.source rule.target with
        | none => simp [hself]
        | some kind =>
            by_cases hsame : kind = rule.kind
            · simp [hself, hsame, fillStandard, hkind]
            · simp [hsame]

theorem addUser_eq_ok_iff {rule : UserRule} :
    table.addUser rule = .ok grown ↔
      rule.source ≠ rule.target ∧ table.standardKind? rule.source rule.target = none ∧
        { table with userDefined := rule.insert table.userDefined } = grown := by
  unfold addUser
  by_cases hself : rule.source = rule.target
  · simp [hself]
  · rw [if_neg hself]
    cases table.standardKind? rule.source rule.target with
    | none => simp [hself]
    | some kind => simp

end ConversionTable

/-! ## Written rules -/

namespace WrittenRule

variable {table grown : ConversionTable}

/-- The rule is written for this pair of types. -/
def Joins (written : WrittenRule) (source target : Fingerprint) : Prop :=
  Fingerprint.ofName written.source = source ∧ Fingerprint.ofName written.target = target

instance (written : WrittenRule) (source target : Fingerprint) :
    Decidable (written.Joins source target) :=
  inferInstanceAs (Decidable (_ ∧ _))

/-- Comparing the names first refuses nothing that the table would accept. -/
theorem addStandard_eq_ok_iff {kind : RuleKind} {written : WrittenRule} :
    written.addStandard kind table = .ok grown ↔
      table.addStandard (written.standardRule kind) = .ok grown := by
  unfold addStandard
  split
  · rename_i hsame
    simp [ConversionTable.addStandard_eq_ok_iff, standardRule, hsame]
  · exact Traversal.mapError_eq_ok_iff

theorem addUser_eq_ok_iff {written : WrittenRule} :
    written.addUser table = .ok grown ↔ table.addUser written.userRule = .ok grown := by
  unfold addUser
  split
  · rename_i hsame
    simp [ConversionTable.addUser_eq_ok_iff, userRule, hsame]
  · exact Traversal.mapError_eq_ok_iff

/-- Putting standard rules of one kind into a table adds their pairs and nothing else. -/
theorem standardKind?_of_foldlM {kind : RuleKind} {written : List WrittenRule}
    (hfold : written.foldlM (addStandard kind) table = .ok grown) :
    grown.userDefined = table.userDefined ∧
      (∀ source target found, grown.standardKind? source target = some found ↔
        table.standardKind? source target = some found ∨
          found = kind ∧ ∃ rule ∈ written, rule.Joins source target) ∧
      ∀ rule ∈ written, ∀ source, ¬ rule.Joins source source := by
  induction written generalizing table with
  | nil =>
      obtain rfl : table = grown := by simpa [pure, Except.pure] using hfold
      simp
  | cons rule rest ih =>
      rw [List.foldlM_cons] at hfold
      obtain ⟨middle, hfirst, hrest⟩ := Traversal.bind_eq_ok_iff.mp hfold
      obtain ⟨huser, hkinds, hproper⟩ := ih hrest
      rw [addStandard_eq_ok_iff, ConversionTable.addStandard_eq_ok_iff] at hfirst
      obtain ⟨hself, _, hagree, rfl⟩ := hfirst
      refine ⟨huser.trans (ConversionTable.userDefined_fillStandard _ _), ?_, ?_⟩
      · intro source target found
        rw [hkinds, ConversionTable.standardKind?_fillStandard_eq_some_iff hagree]
        rw [List.exists_mem_cons_iff, and_or_left, or_assoc]
        rfl
      · intro other hother source hjoins
        rcases List.mem_cons.mp hother with rfl | hother
        · exact hself (hjoins.1.trans hjoins.2.symm)
        · exact hproper other hother source hjoins

/-- Putting user-defined rules into a table adds them and nothing else. -/
theorem mem_userDefined_of_foldlM {written : List WrittenRule}
    (hfold : written.foldlM addUser table = .ok grown) :
    grown.standard = table.standard ∧
      (∀ rule, rule ∈ grown.userDefined ↔
        rule ∈ table.userDefined ∨ ∃ other ∈ written, other.userRule = rule) ∧
      ∀ rule ∈ written, ∀ source target, rule.Joins source target →
        source ≠ target ∧ table.standardKind? source target = none := by
  induction written generalizing table with
  | nil =>
      obtain rfl : table = grown := by simpa [pure, Except.pure] using hfold
      simp
  | cons written rest ih =>
      rw [List.foldlM_cons] at hfold
      obtain ⟨middle, hfirst, hrest⟩ := Traversal.bind_eq_ok_iff.mp hfold
      obtain ⟨hstandard, husers, hapart⟩ := ih hrest
      rw [addUser_eq_ok_iff, ConversionTable.addUser_eq_ok_iff] at hfirst
      obtain ⟨hself, hnone, rfl⟩ := hfirst
      refine ⟨hstandard, ?_, ?_⟩
      · intro rule
        rw [husers, UserRule.mem_insert_iff, List.exists_mem_cons_iff, or_assoc, or_left_comm,
          eq_comm (a := rule)]
      · rintro other hother source target ⟨rfl, rfl⟩
        rcases List.mem_cons.mp hother with rfl | hother
        · exact ⟨hself, hnone⟩
        · exact hapart other hother _ _ ⟨rfl, rfl⟩

end WrittenRule

namespace RuleBook

/-- The standard rules of one kind. -/
def ofKind (rules : RuleBook) : RuleKind → List WrittenRule
  | .promotion => rules.promotion
  | .standard => rules.standard

/-- The table has the written rules and no others, and each pair has rules of one kind. -/
structure Recorded (rules : RuleBook) (table : ConversionTable) : Prop where
  standard_iff : ∀ source target kind, table.standardKind? source target = some kind ↔
    ∃ rule ∈ rules.ofKind kind, rule.Joins source target
  user_iff : ∀ rule, rule ∈ table.userDefined ↔
    ∃ written ∈ rules.userDefined, written.userRule = rule
  apart : ∀ written ∈ rules.userDefined, ∀ source target, written.Joins source target →
    table.standardKind? source target = none
  proper : ∀ written ∈ rules.promotion ++ rules.standard ++ rules.userDefined, ∀ type,
    ¬ written.Joins type type

theorem recorded_of_buildWritten {rules : RuleBook} {table : ConversionTable}
    (hbuild : rules.buildWritten = .ok table) : rules.Recorded table := by
  obtain ⟨first, hpromotion, hbuild⟩ := Traversal.bind_eq_ok_iff.mp hbuild
  obtain ⟨second, hstandard, huser⟩ := Traversal.bind_eq_ok_iff.mp hbuild
  obtain ⟨hfirst, hpromotions, hproper⟩ := WrittenRule.standardKind?_of_foldlM hpromotion
  obtain ⟨hsecond, hstandards, hproper'⟩ := WrittenRule.standardKind?_of_foldlM hstandard
  obtain ⟨hsame, husers, hapart⟩ := WrittenRule.mem_userDefined_of_foldlM huser
  have hkinds : ∀ source target, table.standardKind? source target =
      second.standardKind? source target := by
    intro source target
    rw [ConversionTable.standardKind?, hsame, ConversionTable.standardKind?]
  refine ⟨?_, ?_, ?_, ?_⟩
  · intro source target kind
    rw [hkinds, hstandards, hpromotions]
    cases kind with
    | promotion => simp [ConversionTable.standardKind?, ConversionTable.empty, ofKind]
    | standard => simp [ConversionTable.standardKind?, ConversionTable.empty, ofKind]
  · intro rule
    rw [husers, hsecond, hfirst]
    simp [ConversionTable.empty]
  · intro written hwritten source target hjoins
    rw [hkinds]
    exact (hapart written hwritten source target hjoins).2
  · intro written hwritten type hjoins
    simp only [List.mem_append] at hwritten
    rcases hwritten with (hwritten | hwritten) | hwritten
    · exact hproper written hwritten type hjoins
    · exact hproper' written hwritten type hjoins
    · exact (hapart written hwritten type type hjoins).1 rfl

end RuleBook
end CallResolution
