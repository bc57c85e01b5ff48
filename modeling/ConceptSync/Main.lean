import ConceptSync.CommandLine.Run

set_option autoImplicit false
set_option relaxedAutoImplicit false

/-!
The program: reads the environment and the settings file, runs, and prints.
-/

namespace ConceptSync

/-- The environment variables that settings are read from. -/
def readEnvironment : IO Environment := do
  let names := ["WAYPOINT_MAX_DEPTH", "WAYPOINT_CYCLE_GUARD", "REQUESTING_BASE_URL",
    "REQUESTING_TIMEOUT_MS"]
  let values ← names.mapM fun name => do return (name, ← IO.getEnv name)
  return Table.ofList (values.filterMap fun e => e.2.map fun value => (e.1, value))

/-- The content of the settings file that the arguments name, if it can be read. -/
def readSettings (args : List String) : IO (Option String) := do
  match CommandLine.parse args with
  | .run ⟨some path, _, _⟩ =>
    try
      return some (← IO.FS.readFile path)
    catch _ =>
      return none
  | _ => return none

end ConceptSync

open ConceptSync in
def main (args : List String) : IO UInt32 := do
  let env ← readEnvironment
  let content ← readSettings args
  let ending := CommandLine.run args env (fun _ => content) 0
  IO.print ending.output
  match ending.complaint? with
  | some complaint => IO.eprintln complaint
  | none => pure ()
  return UInt32.ofNat ending.code
