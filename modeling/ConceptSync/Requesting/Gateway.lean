import ConceptSync.Engine.Invoke
import ConceptSync.Requesting.Concept
import ConceptSync.Requesting.Routes

set_option autoImplicit false
set_option relaxedAutoImplicit false

/-!
The gateway. A call of an included route performs its operation; any other call opens a request,
lets the rules run, and gives back what one of them answered.
-/

namespace ConceptSync

inductive RouteKind where
  | passthrough
  | requested
deriving DecidableEq, Repr

/-- What a call is answered with, and the run it started if it started one. -/
structure GatewayResponse where
  route : RouteKind
  body : Value
  report : Option Report

namespace GatewayResponse

/-- The status that the body says, else 400 for an error and 200 for anything else. -/
def status (r : GatewayResponse) : Nat :=
  match r.body with
  | .object fields =>
    match (Table.get? fields "status").bind Value.asUnsigned? with
    | some status => if status < 0x10000 then status else 500
    | none => if Payload.isError fields then 400 else 200
  | _ => 200

def isError (r : GatewayResponse) : Bool := decide (400 ≤ r.status)

end GatewayResponse

abbrev SessionResolver (σ : Type) := String → Effect σ (Option String)

structure Gateway (κ : Type) where
  engine : Engine (World κ)
  config : RequestingConfig
  routes : RouteTable
  sessions : Option (SessionResolver (World κ))
  requestAction : ActionId

namespace Gateway

variable {κ π : Type}

/-- The gateway of an engine whose registry has the request concept. -/
def build (engine : Engine (World κ)) (config : RequestingConfig) (routes : RouteTable)
    (sessions : Option (SessionResolver (World κ))) : Except EngineError (Gateway κ) :=
  match engine.registry.action Requesting.name "request" with
  | .ok requestAction => .ok { engine, config, routes, sessions, requestAction }
  | .error e => .error e

/-- The user of the session that a body names. -/
def resolveUser (g : Gateway κ) (body : Payload) : Effect (World κ) (Option String) :=
  match g.sessions, body.string? "session" with
  | some resolve, some session => resolve session
  | _, _ => pure none

def onWorld {α : Type} (e : Effect (World κ) α) (stage : Stage (World κ) π) :
    Except Halt α × Stage (World κ) π :=
  match e stage.world with
  | (.ok a, world) => (.ok a, { stage with world })
  | (.failed failure, world) => (.error (.failed failure), { stage with world })
  | (.broken b, world) => (.error (.broken b), { stage with world })

def rootOutput (report : Report) : Value :=
  match report.root? with
  | some record => .object record.output
  | none => .null

def noOperation (route : String) : GatewayResponse :=
  ⟨.passthrough, .object ((Payload.error ("No operation at " ++ route)).insert "status"
    (.ofInt 404)), none⟩

variable [RecordKeeper π]

/-- Call the operation of a route directly. A verified user replaces the one in the body. -/
def passthrough (g : Gateway κ) (route : String) (body : Payload) (user : Option String)
    (stage : Stage (World κ) π) : Except Halt GatewayResponse × Stage (World κ) π :=
  let registry := g.engine.registry
  match operationFor? route with
  | none => (.ok (noOperation route), stage)
  | some qualified =>
    match registry.lookup qualified with
    | none => (.ok (noOperation route), stage)
    | some id =>
      let input := match user with
        | some user => body.insert "user" (.string user)
        | none => body
      match registry.kind? id with
      | some .action =>
        match g.engine.invoke id input stage with
        | (.ok report, stage) => (.ok ⟨.passthrough, rootOutput report, some report⟩, stage)
        | (.error halt, stage) => (.error halt, stage)
      -- queries run outside of any run and leave no record
      | some .query =>
        let (conceptName, query) := Text.splitQualified qualified
        match registry.concept? conceptName with
        | none => (.ok (noOperation route), stage)
        | some concept =>
          match onWorld (concept.query query input) stage with
          | (.ok rows, stage) =>
            (.ok ⟨.passthrough, .array (rows.map Value.object), none⟩, stage)
          | (.error halt, stage) => (.error halt, stage)
      | none => (.ok (noOperation route), stage)

/-- The input of the request that a call opens: its route, and the verified user or null in place
of any the caller gave. -/
def requestInput (route : String) (body : Payload) (user : Option String) : Payload :=
  (body.insert "path" (.string route)).insert "user" ((user.map Value.string).getD .null)

/-- Open a request for a call, let the rules run and collect the answer. -/
def request (g : Gateway κ) (route : String) (body : Payload) (user : Option String)
    (stage : Stage (World κ) π) : Except Halt GatewayResponse × Stage (World κ) π :=
  match g.engine.invoke g.requestAction (requestInput route body user) stage with
  | (.error halt, stage) => (.error halt, stage)
  | (.ok report, stage) =>
    match report.root?.bind fun record => record.output.string? "request" with
    -- the opening was refused, so its error is the answer
    | none => (.ok ⟨.requested, rootOutput report, some report⟩, stage)
    | some id =>
      match onWorld (World.awaitResponse g.config.timeout id) stage with
      | (.ok response, stage) => (.ok ⟨.requested, .object response, some report⟩, stage)
      | (.error halt, stage) => (.error halt, stage)

/-- Serve a call. The session is looked up first. -/
def handle (g : Gateway κ) (path : String) (body : Payload) (stage : Stage (World κ) π) :
    Except Halt GatewayResponse × Stage (World κ) π :=
  let route := g.config.stripBase path
  match onWorld (g.resolveUser body) stage with
  | (.error halt, stage) => (.error halt, stage)
  | (.ok user, stage) =>
    match g.routes.justification? (g.config.baseUrl ++ route) with
    | some _ => g.passthrough route body user stage
    | none => g.request route body user stage

end Gateway

end ConceptSync
