import ConceptSync.Toml.Reader
import ConceptSync.Travel.App

set_option autoImplicit false
set_option relaxedAutoImplicit false

/-!
Settings read from documents. A setting that is not given keeps its default, one that nobody knows
is a mistake.
-/

namespace ConceptSync

def readSetting? {α : Type} (default : α) (read : Toml.Datum → Option α) :
    Option Toml.Datum → Option α
  | none => some default
  | some d => read d

namespace EngineConfig

def ofDatum? (d : Toml.Datum) : Option EngineConfig := do
  let defaults : EngineConfig := {}
  let field? ← d.record? ["max_depth", "cycle_guard"]
  let maxDepth ←
    readSetting? defaults.maxDepth (Toml.Datum.asNatBelow? 0x100000000) (field? "max_depth")
  let cycleGuard ← readSetting? defaults.cycleGuard Toml.Datum.asBool? (field? "cycle_guard")
  some { maxDepth, cycleGuard }

end EngineConfig

namespace RequestingConfig

def ofDatum? (d : Toml.Datum) : Option RequestingConfig := do
  let defaults : RequestingConfig := {}
  let field? ← d.record? ["base_url", "timeout_ms"]
  let baseUrl ← readSetting? defaults.baseUrl Toml.Datum.asText? (field? "base_url")
  let timeout ←
    readSetting? defaults.timeout (Toml.Datum.asNatBelow? 0x10000000000000000) (field? "timeout_ms")
  some { baseUrl, timeout }

end RequestingConfig

def settingsOf {α : Type} (ofDatum? : Toml.Datum → Option α) (text : String) : Except Failure α :=
  match (Toml.read? text).bind ofDatum? with
  | some config => .ok config
  | none => .error (.other "the text is no document of these settings")

/-- A failure told together with what was being done. -/
def inContext {α : Type} (context : String) : Except Failure α → Except Failure α
  | .ok a => .ok a
  | .error failure => .error (failure.inContext context)

def EngineConfig.ofText (text : String) : Except Failure EngineConfig :=
  inContext "Failed to parse engine config" (settingsOf EngineConfig.ofDatum? text)

def RequestingConfig.ofText (text : String) : Except Failure RequestingConfig :=
  inContext "Failed to parse requesting config" (settingsOf RequestingConfig.ofDatum? text)

namespace Travel.AppConfig

def ofDatum? (d : Toml.Datum) : Option AppConfig := do
  let field? ← d.record? ["engine", "requesting"]
  let engine ← readSetting? {} EngineConfig.ofDatum? (field? "engine")
  let requesting ← readSetting? {} RequestingConfig.ofDatum? (field? "requesting")
  some { engine, requesting }

def ofText (text : String) : Except Failure AppConfig := settingsOf ofDatum? text

/-- The application's settings in a file, given what the file holds if it can be read. -/
def ofFile (path : String) (content : Option String) : Except Failure AppConfig :=
  match content with
  | none =>
    inContext ("Failed to read config file: " ++ path) (.error (.other "the file cannot be read"))
  | some text => inContext ("Failed to parse config file: " ++ path) (ofText text)

end Travel.AppConfig

end ConceptSync
