import CallResolution.Settings.Rules
import CallResolution.Toml.Document

/-!
# Settings as documents

Settings are written in TOML.  A key that is not known is ignored; a known key with
a value of the wrong type makes the whole document malformed.

A rule is a table, or a list of its source, its target and perhaps its label.  A
document of rules alone does not look at what follows in such a list; a document of
engine settings does not allow anything to follow.
-/

namespace CallResolution
namespace Settings

/-- What may follow the label in a rule that is written as a list. -/
inductive Surplus where
  | ignored
  | refused
  deriving DecidableEq, Repr

/-- A string, and nothing else. -/
def string? : Toml.Value → Option String
  | .string text => some text
  | _ => none

/-- The string under a key that has to be there. -/
def requiredString (entries : List (String × Toml.Value)) (key : String) : Option String :=
  (entries.lookup key).bind string?

/-- The string under a key that may be missing. -/
def optionalString (entries : List (String × Toml.Value)) (key : String) :
    Option (Option String) :=
  match entries.lookup key with
  | none => some none
  | some value => (string? value).map some

/-- A rule written as a table. -/
def ruleOfTable (entries : List (String × Toml.Value)) : Option WrittenRule := do
  let source ← requiredString entries "from"
  let target ← requiredString entries "to"
  let via ← optionalString entries "via"
  some ⟨source, target, via⟩

/-- A rule written as a list. -/
def ruleOfList (surplus : Surplus) : List Toml.Value → Option WrittenRule
  | [source, target] => do
      let source ← string? source
      let target ← string? target
      some ⟨source, target, none⟩
  | source :: target :: via :: rest => do
      let source ← string? source
      let target ← string? target
      let via ← string? via
      if surplus = .ignored ∨ rest.isEmpty then some ⟨source, target, some via⟩ else none
  | _ => none

/-- A rule in either form. -/
def rule? (surplus : Surplus) : Toml.Value → Option WrittenRule
  | .table entries => ruleOfTable entries
  | .array items => ruleOfList surplus items
  | _ => none

/-- The rules under a key; none if the key is missing. -/
def ruleList (surplus : Surplus) (entries : List (String × Toml.Value)) (key : String) :
    Option (List WrittenRule) :=
  match entries.lookup key with
  | none => some []
  | some (.array items) => items.mapM (rule? surplus)
  | some _ => none

/-- The flag under a key, or a default if the key is missing. -/
def flag (entries : List (String × Toml.Value)) (key : String) (default : Bool) : Option Bool :=
  match entries.lookup key with
  | none => some default
  | some (.boolean value) => some value
  | some _ => none

/-- The natural number under a key that may be missing. -/
def optionalCount (entries : List (String × Toml.Value)) (key : String) : Option (Option Nat) :=
  match entries.lookup key with
  | none => some none
  | some (.integer number) => if 0 ≤ number then some (some number.toNat) else none
  | some _ => none

/-- The conversion rules of a document. -/
def rules? (surplus : Surplus) (entries : List (String × Toml.Value)) :
    Option RuleBook := do
  let scalarPreset ← flag entries "scalar_preset" true
  let promotion ← ruleList surplus entries "promotion"
  let standard ← ruleList surplus entries "standard"
  let userDefined ← ruleList surplus entries "user_defined"
  some ⟨scalarPreset, promotion, standard, userDefined⟩

/-- The engine settings of a document. -/
def engine? (entries : List (String × Toml.Value)) : Option EngineSettings := do
  let workers ← optionalCount entries "workers"
  let conversions ← rules? .refused entries
  some ⟨workers, conversions⟩

end Settings

namespace RuleBook

/-- Read a document of conversion rules. -/
def ofText (text : String) : Except SettingsError RuleBook :=
  match (Toml.parse? text).bind (Settings.rules? .ignored) with
  | some rules => .ok rules
  | none => .error .malformed

end RuleBook

namespace EngineSettings

/-- Read a document of engine settings and check them. -/
def ofText (text : String) : Except SettingsError EngineSettings :=
  match (Toml.parse? text).bind Settings.engine? with
  | some settings => do
      settings.check
      return settings
  | none => .error .malformed

end EngineSettings
end CallResolution
