import ConceptSync.CommandLine.Help
import ConceptSync.Json.Reader
import ConceptSync.Settings.Document
import ConceptSync.Settings.Environment

set_option autoImplicit false
set_option relaxedAutoImplicit false

/-!
Runs of the command line, from arguments, environment and files to what is printed.
-/

namespace ConceptSync

namespace CommandLine

/-- How a run of the program ends. -/
inductive Ending where
  | printed (text : String)
  | failed (failure : Failure)
  | wrongUsage
  | crashed

namespace Ending

def code : Ending → Nat
  | printed _ => 0
  | failed _ => 1
  | wrongUsage => 2
  | crashed => 101

def output : Ending → String
  | printed text => text
  | _ => ""

def complaint? : Ending → Option String
  | failed failure => some ("Error: " ++ failure.headline)
  | _ => none

end Ending

/-- A number at the right end of a column. -/
def column (width n : Nat) : String :=
  let digits := toString n
  String.ofList (List.replicate (width - digits.length) ' ') ++ digits

def listing (names : List String) : String :=
  lines (names.zipIdx.map fun e => column 3 e.2 ++ "  " ++ e.1)

def recordLine (r : Record) : String :=
  String.ofList (List.replicate (2 * r.depth) ' ') ++ (if r.isError then "!" else "-") ++ " #" ++
    toString r.seq ++ " " ++ r.action ++ " " ++ Json.print (.object r.output)

def abortedLine (a : AbortedBranch) : String :=
  "  x " ++ a.rule ++ " after #" ++ toString a.trigger ++ ": " ++ a.error.message

/-- What a run did: its completions, then the branches it gave up. -/
def reportLines (report : Report) : List String :=
  "" :: ("run " ++ report.run ++ " (" ++ toString report.fired ++ " rule firings)") ::
    (report.records.map recordLine ++ report.aborted.map abortedLine)

/-- A response with the run behind it. -/
def responseText (response : GatewayResponse) : String :=
  lines ((toString response.status ++ " " ++ Json.pretty response.body) ::
    match response.report with
    | some report => reportLines report
    | none => [])

def halted : Halt → Ending
  | .failed failure => .failed failure
  | .broken _ => .crashed

def respond (app : Travel.App) (path : String) (body : Value) (stage : Travel.AppStage) : Ending :=
  match app.handle path body stage with
  | (.ok response, _) => .printed (responseText response)
  | (.error halt, _) => halted halt

/-- Log a user in and serve a request in the session, which the body gets as a field. -/
def respondTo (app : Travel.App) (user path : String) (body : Value) (stage : Travel.AppStage) :
    Ending :=
  match Travel.App.login user stage with
  | (.error halt, _) => halted halt
  | (.ok session, stage) =>
    match body with
    | .object fields =>
      respond app path (.object (Table.insert fields "session" (.string session))) stage
    -- the session is open by now, but nothing can be called in it
    | _ => .failed (.other "Request body must be a JSON object")

def perform (app : Travel.App) (wall : Int) : Command → Ending
  | .rules => .printed (listing (app.engine.rules.map Rule.name))
  | .request path text user =>
    match Json.read? text with
    | none =>
      .failed ((Failure.other "the text is no document").inContext
        ("Request body is not JSON: " ++ text))
    | some body =>
      match user with
      | some user => respondTo app user path body (.start wall)
      | none => respond app path body (.start wall)

/-- The settings of a run: those of the file that is named, else those of the environment. -/
def settings (options : Options) (env : Environment) (file : String → Option String) :
    Except Failure Travel.AppConfig :=
  match options.config with
  | some path => Travel.AppConfig.ofFile path (file path)
  | none => Travel.AppConfig.ofEnvironment env

def runOptions (options : Options) (env : Environment) (file : String → Option String)
    (wall : Int) : Ending :=
  match (settings options env file).bind Travel.App.build with
  | .ok app => perform app wall options.command
  | .error failure => .failed failure

/-- Run the program. `file` gives the content of a file that can be read. -/
def run (args : List String) (env : Environment) (file : String → Option String) (wall : Int) :
    Ending :=
  match parse args with
  | .wrongUsage => .wrongUsage
  | .help topic => .printed topic.text
  | .run options => runOptions options env file wall

end CommandLine

end ConceptSync
