import ConceptSync.Json.Printer
import ConceptSync.Requesting.Gateway
import ConceptSync.Travel.Rules.All

set_option autoImplicit false
set_option relaxedAutoImplicit false

/-!
The travel application: trips, itineraries, polls and shared costs, wired together by rules and
served through the gateway.
-/

namespace ConceptSync

namespace Travel

structure AppConfig where
  engine : EngineConfig := {}
  requesting : RequestingConfig := {}
deriving DecidableEq, Repr

abbrev AppStage := Stage TravelWorld RecordStore

/-- A stage on which nothing happened yet. -/
def AppStage.start (wall : Int) : AppStage := ⟨World.start wall .empty, .empty, 0⟩

structure App where
  gateway : Gateway State

namespace App

def registry (config : RequestingConfig) : Except EngineError (Registry TravelWorld) :=
  Registry.empty.registerAll (Requesting.concept config :: concepts)

def build (config : AppConfig) : Except Failure App :=
  match registry config.requesting with
  | .error e => .error (.engine e)
  | .ok registry =>
    match Engine.build registry rules config.engine with
    | .error failure => .error failure
    | .ok engine =>
      match Gateway.build engine config.requesting (routeTable config.requesting.baseUrl)
          (some (Sessions.resolve State.sessionsPart)) with
      | .error e => .error (.engine e)
      | .ok gateway => .ok ⟨gateway⟩

def engine (app : App) : Engine TravelWorld := app.gateway.engine

/-- Serve a call. Its body must be an object. -/
def handle (app : App) (path : String) (body : Value) (stage : AppStage) :
    Except Halt GatewayResponse × AppStage :=
  match Payload.ofValue body with
  | .ok body => app.gateway.handle path body stage
  | .error e => (.error (.failed (.engine e)), stage)

/-- Open a session for a user. Gives its token. -/
def login (user : String) (stage : AppStage) : Except Halt String × AppStage :=
  match Gateway.onWorld (Sessions.create State.sessionsPart (.single "user" (.string user))) stage with
  | (.ok created, stage) =>
    match created.string? "session" with
    | some session => (.ok session, stage)
    | none => (.error (.failed (.other ("Failed to open a session for " ++ user))), stage)
  | (.error halt, stage) => (.error halt, stage)

def userOf (session : String) (stage : AppStage) : Except Halt (Option String) × AppStage :=
  Gateway.onWorld (Sessions.resolve State.sessionsPart session) stage

def query (app : App) (concept name : String) (input : Payload) (stage : AppStage) :
    Except Halt (List Payload) × AppStage :=
  match app.engine.registry.query concept name with
  | .ok handle => Gateway.onWorld (handle.call input) stage
  | .error e => (.error (.failed (.engine e)), stage)

end App

end Travel

end ConceptSync
