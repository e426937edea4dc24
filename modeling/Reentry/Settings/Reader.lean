import Reentry.Json.Record
import Reentry.Settings.Basic
import Reentry.Toml.Document

/-!
Reading settings, as a TOML text or piecewise from JSON. Whatever is left out has its default, and names
that mean nothing are skipped.
-/

namespace Reentry

namespace Toml

def readBool? : Toml → Option Bool
  | .bool value => some value
  | _ => none

def readNat? : Toml → Option Nat
  | .int value => if 0 ≤ value then some value.toInt.toNat else none
  | _ => none

def readDefault? {α : Type} (default : α) (read : Toml → Option α) : Option Toml → Option α
  | none => some default
  | some value => read value

end Toml

def LowerOptions.ofToml? (toml : Toml) : Option LowerOptions := do
  match ← toml.record? ["verify", "source_locations"] with
  | [verify, locations] =>
      some ⟨← Toml.readDefault? true Toml.readBool? verify, ← Toml.readDefault? true Toml.readBool? locations⟩
  | _ => none

def RunLimits.ofToml? (toml : Toml) : Option RunLimits := do
  match ← toml.record? ["max_call_depth"] with
  | [depth] => some ⟨← Toml.readDefault? 1024 Toml.readNat? depth⟩
  | _ => none

namespace Settings

def ofToml? (toml : Toml) : Option Settings := do
  match ← toml.record? ["lower", "runtime"] with
  | [lower, runtime] =>
      some ⟨← Toml.readDefault? {} LowerOptions.ofToml? lower, ← Toml.readDefault? {} RunLimits.ofToml? runtime⟩
  | _ => none

/-- The settings that a text gives, if a run is possible with them. -/
def parse (text : String) : Except SettingsError Settings := do
  match (Toml.parse? text).bind ofToml? with
  | none => throw .malformed
  | some settings =>
      settings.check
      return settings

end Settings

open Json

def LowerOptions.read? (json : Json) : Option LowerOptions := do
  match ← json.record? [defaulted "verify", defaulted "source_locations"] with
  | [verify, locations] =>
      some ⟨← readDefault? true readBool? verify, ← readDefault? true readBool? locations⟩
  | _ => none

def RunLimits.read? (json : Json) : Option RunLimits := do
  match ← json.record? [defaulted "max_call_depth"] with
  | [depth] => some ⟨← readDefault? 1024 (readNat? UInt64.size) depth⟩
  | _ => none

end Reentry
