import CallResolution.Settings.Document

/-!
# Settings in files

Engine settings are read from a file.  A file that cannot be read is reported with
its path, before anything is said about what it holds.
-/

namespace CallResolution
namespace EngineSettings

/-- Read engine settings from a file. -/
def load (disk : Disk) (path : String) : Except SettingsError EngineSettings := do
  let text ← (disk.readText path).mapError (.unreadable path)
  ofText text

end EngineSettings
end CallResolution
