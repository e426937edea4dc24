import Reentry.Lowering.Options

/-!
What the user may set: how programs are lowered and what limits a run.
-/

namespace Reentry

structure RunLimits where
  /-- How many calls of an actor may be active at once. -/
  maxCallDepth : Nat := 1024
deriving DecidableEq, Repr, Inhabited

structure Settings where
  lower : LowerOptions := {}
  runtime : RunLimits := {}
deriving DecidableEq, Repr, Inhabited

inductive SettingsError where
  /-- The text is malformed, or a value is not of the kind it should be. -/
  | malformed
  /-- Not even one call could be active. -/
  | noCallDepth
deriving DecidableEq, Repr

namespace SettingsError

def message : SettingsError → String
  | .malformed => "Failed to parse config"
  | .noCallDepth => "Invalid config: runtime.max_call_depth must be at least 1"

end SettingsError

namespace Settings

/-- Whether a run is possible with these settings. -/
def check (settings : Settings) : Except SettingsError Unit :=
  if settings.runtime.maxCallDepth = 0 then .error .noCallDepth else .ok ()

end Settings

end Reentry
