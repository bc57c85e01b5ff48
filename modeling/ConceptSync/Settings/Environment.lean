import ConceptSync.Text.Quoted
import ConceptSync.Travel.App

set_option autoImplicit false
set_option relaxedAutoImplicit false

/-!
Settings read from environment variables. A variable that is not set leaves the default.
-/

namespace ConceptSync

abbrev Environment := Table String String

namespace Environment

/-- A number below a limit: digits after an optional plus sign. -/
def number? (limit : Nat) (s : String) : Option Nat :=
  let digits := match s.toList with
    | '+' :: rest => rest
    | cs => cs
  let n := digits.foldl (fun n c => n * 10 + (c.toNat - '0'.toNat)) 0
  if !digits.isEmpty && digits.all Char.isDigit && n < limit then some n else none

def bool? (s : String) : Option Bool :=
  if s = "true" then some true else if s = "false" then some false else none

/-- The value of a variable, which must be of the expected kind. -/
def setting {α : Type} (env : Environment) (name expected : String) (default : α)
    (read : String → Option α) : Except Failure α :=
  match env.get? name with
  | none => .ok default
  | some raw =>
    match read raw with
    | some a => .ok a
    | none => .error (.other (name ++ " must be " ++ expected ++ ", got " ++ Text.quoted raw))

end Environment

def EngineConfig.ofEnvironment (env : Environment) : Except Failure EngineConfig := do
  let defaults : EngineConfig := {}
  let maxDepth ← env.setting "WAYPOINT_MAX_DEPTH" "a number" defaults.maxDepth
    (Environment.number? 0x100000000)
  let cycleGuard ← env.setting "WAYPOINT_CYCLE_GUARD" "true or false" defaults.cycleGuard
    Environment.bool?
  return { maxDepth, cycleGuard }

def RequestingConfig.ofEnvironment (env : Environment) : Except Failure RequestingConfig := do
  let defaults : RequestingConfig := {}
  let baseUrl ← env.setting "REQUESTING_BASE_URL" "a path" defaults.baseUrl some
  let timeout ← env.setting "REQUESTING_TIMEOUT_MS" "a number" defaults.timeout
    (Environment.number? 0x10000000000000000)
  return { baseUrl, timeout }

/-- The application's settings; the engine's are read first. -/
def Travel.AppConfig.ofEnvironment (env : Environment) : Except Failure AppConfig := do
  let engine ← EngineConfig.ofEnvironment env
  let requesting ← RequestingConfig.ofEnvironment env
  return { engine, requesting }

end ConceptSync
