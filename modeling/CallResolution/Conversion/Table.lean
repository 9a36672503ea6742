import CallResolution.Fingerprint.Scalar

/-!
# Conversion tables

The configured conversion rules: standard steps between pairs of types, each a
promotion or a standard conversion, and user-defined rules, which may name the
function that carries them out.

A pair of types has at most one standard rule, and no rule of another kind is
accepted for it.  The scalar preset is weaker: it fills in the pairs that have no
standard rule and looks at nothing else.

User-defined rules are held in one ascending list without repetition, so the
order in which they were given leaves no trace.
-/

namespace CallResolution

/-- The two kinds of standard rule. -/
inductive RuleKind where
  | promotion
  | standard
  deriving DecidableEq, Repr

/-- A configured standard step. -/
structure StandardRule where
  source : Fingerprint
  target : Fingerprint
  kind : RuleKind
  deriving DecidableEq, Repr

/-- A configured user-defined conversion. -/
structure UserRule where
  source : Fingerprint
  target : Fingerprint
  via : Option String
  deriving DecidableEq, Repr

namespace UserRule

/-- The order of labels: no label first, then by code points. -/
def labelPrecedes : Option String → Option String → Bool
  | none, some _ => true
  | some a, some b => a < b
  | _, none => false

/-- The order of rules: by source, then by target, then by label. -/
def precedes (a b : UserRule) : Bool :=
  if a.source = b.source then
    if a.target = b.target then labelPrecedes a.via b.via else a.target.bits < b.target.bits
  else
    a.source.bits < b.source.bits

/-- Insert into an ascending list, unless the rule is there already. -/
def insert (rule : UserRule) : List UserRule → List UserRule
  | [] => [rule]
  | first :: rest =>
      if rule = first then first :: rest
      else if rule.precedes first then rule :: first :: rest
      else first :: insert rule rest

end UserRule

/-- Why a rule is refused. -/
inductive RuleConflict where
  /-- The rule goes from a type to itself. -/
  | selfConversion (type : Fingerprint)
  /-- The pair already has a rule of another kind. -/
  | conflicting (source target : Fingerprint)
  deriving DecidableEq, Repr

/-- All configured rules. -/
structure ConversionTable where
  standard : List StandardRule
  userDefined : List UserRule
  deriving DecidableEq, Repr

namespace ConversionTable

/-- The table without rules. -/
def empty : ConversionTable where
  standard := []
  userDefined := []

def size (table : ConversionTable) : Nat :=
  table.standard.length + table.userDefined.length

/-- The kind of the standard rule for a pair. -/
def standardKind? (table : ConversionTable) (source target : Fingerprint) : Option RuleKind :=
  (table.standard.find? fun rule => rule.source = source ∧ rule.target = target).map (·.kind)

/-- The user-defined rules that start at a type, in ascending order. -/
def rulesFrom (table : ConversionTable) (source : Fingerprint) : List UserRule :=
  table.userDefined.filter (·.source = source)

def hasUserRule (table : ConversionTable) (source target : Fingerprint) : Bool :=
  (table.rulesFrom source).any (·.target = target)

/-- Add a standard rule for a pair that has none; keep the table otherwise. -/
def fillStandard (table : ConversionTable) (rule : StandardRule) : ConversionTable :=
  match table.standardKind? rule.source rule.target with
  | some _ => table
  | none => { table with standard := table.standard ++ [rule] }

/-- Add a standard rule. -/
def addStandard (table : ConversionTable) (rule : StandardRule) :
    Except RuleConflict ConversionTable :=
  if rule.source = rule.target then
    .error (.selfConversion rule.source)
  else if table.hasUserRule rule.source rule.target then
    .error (.conflicting rule.source rule.target)
  else
    match table.standardKind? rule.source rule.target with
    | none => .ok (table.fillStandard rule)
    | some kind =>
        if kind = rule.kind then .ok table else .error (.conflicting rule.source rule.target)

/-- Add a user-defined rule. -/
def addUser (table : ConversionTable) (rule : UserRule) : Except RuleConflict ConversionTable :=
  if rule.source = rule.target then
    .error (.selfConversion rule.source)
  else if (table.standardKind? rule.source rule.target).isSome then
    .error (.conflicting rule.source rule.target)
  else
    .ok { table with userDefined := rule.insert table.userDefined }

/-- The preset: the scalar promotions, and a standard conversion for every other
pair of distinct scalars. -/
def scalarRules : List StandardRule :=
  Scalar.all.flatMap fun source =>
    (Scalar.all.filter (· ≠ source)).map fun target =>
      { source := source.fingerprint
        target := target.fingerprint
        kind := if source.promotesTo = some target then .promotion else .standard }

/-- Fill in the preset where no standard rule stands. -/
def fillScalars (table : ConversionTable) : ConversionTable :=
  scalarRules.foldl fillStandard table

end ConversionTable
end CallResolution
