import CallResolution.Conversion.Table
import CallResolution.Disk

/-!
# Conversion rules in the settings

Rules are written with the qualified names of types.  They are put into a table in
a fixed order, promotions first, then standard rules, then user-defined ones, and
the first rule that cannot be put in is blamed by the names it was written with.
The scalar preset comes last.
-/

namespace CallResolution

/-- What is wrong with the settings. -/
inductive SettingsError where
  | unreadable (path : String) (failure : ReadFailure)
  | malformed
  | selfConversion (type : String)
  | conflictingRules (source target : String)
  | noWorkers
  deriving DecidableEq, Repr

namespace SettingsError

def message : SettingsError → String
  | .unreadable path failure => s!"cannot read '{path}': {failure.message}"
  | .malformed => "invalid configuration"
  | .selfConversion type => s!"conversion rule from '{type}' to itself"
  | .conflictingRules source target =>
      s!"conflicting conversion rules for '{source}' -> '{target}'"
  | .noWorkers => "worker count must be at least 1"

/-- A refused rule, with its types shown by their fingerprints. -/
def ofConflict : RuleConflict → SettingsError
  | .selfConversion type => .selfConversion type.text
  | .conflicting source target => .conflictingRules source.text target.text

end SettingsError

/-- A rule as it is written. -/
structure WrittenRule where
  source : String
  target : String
  via : Option String
  deriving DecidableEq, Repr

namespace WrittenRule

/-- A refused rule, with its types shown as they were written. -/
def blame (written : WrittenRule) : RuleConflict → SettingsError
  | .selfConversion _ => .selfConversion written.source
  | .conflicting _ _ => .conflictingRules written.source written.target

def standardRule (written : WrittenRule) (kind : RuleKind) : StandardRule where
  source := Fingerprint.ofName written.source
  target := Fingerprint.ofName written.target
  kind := kind

def userRule (written : WrittenRule) : UserRule where
  source := Fingerprint.ofName written.source
  target := Fingerprint.ofName written.target
  via := written.via

/-- Put a standard rule into a table. -/
def addStandard (kind : RuleKind) (table : ConversionTable) (written : WrittenRule) :
    Except SettingsError ConversionTable :=
  if written.source = written.target then .error (.selfConversion written.source)
  else (table.addStandard (written.standardRule kind)).mapError written.blame

/-- Put a user-defined rule into a table. -/
def addUser (table : ConversionTable) (written : WrittenRule) :
    Except SettingsError ConversionTable :=
  if written.source = written.target then .error (.selfConversion written.source)
  else (table.addUser written.userRule).mapError written.blame

end WrittenRule

/-- All conversion rules of the settings. -/
structure RuleBook where
  scalarPreset : Bool
  promotion : List WrittenRule
  standard : List WrittenRule
  userDefined : List WrittenRule
  deriving DecidableEq, Repr

namespace RuleBook

/-- The table of the written rules, without the preset. -/
def buildWritten (rules : RuleBook) : Except SettingsError ConversionTable := do
  let table ← rules.promotion.foldlM (WrittenRule.addStandard .promotion) ConversionTable.empty
  let table ← rules.standard.foldlM (WrittenRule.addStandard .standard) table
  rules.userDefined.foldlM WrittenRule.addUser table

/-- The table of all rules. -/
def build (rules : RuleBook) : Except SettingsError ConversionTable := do
  let table ← rules.buildWritten
  return if rules.scalarPreset then table.fillScalars else table

end RuleBook

/-- The settings of an engine.  Without a number of workers there is one for each
processor. -/
structure EngineSettings where
  workers : Option Nat
  conversions : RuleBook
  deriving DecidableEq, Repr

namespace EngineSettings

/-- Somebody has to do the work. -/
def check (settings : EngineSettings) : Except SettingsError Unit :=
  if settings.workers = some 0 then .error .noWorkers else .ok ()

def conversionTable (settings : EngineSettings) : Except SettingsError ConversionTable :=
  settings.conversions.build

end EngineSettings
end CallResolution
