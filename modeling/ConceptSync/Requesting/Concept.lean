import ConceptSync.Registry
import ConceptSync.World

set_option autoImplicit false
set_option relaxedAutoImplicit false

/-!
Requests as a concept: rules match the opening of a request and answer it.
-/

namespace ConceptSync

namespace Requesting

variable {κ : Type}

def name : String := "Requesting"

def operations : List Operation :=
  [.action "request", .action "respond",
    ((Operation.query "_awaitResponse").takes ["request"]).gives ["response"],
    ((Operation.query "_getResponse").takes ["request"]).gives ["response"]]

def request (config : RequestingConfig) (input : Payload) : Effect (World κ) Payload := do
  match input.string? "path" with
  | none => World.onRequests fun now t => t.request config.timeout now "" input
  | some _ =>
    let id ← World.freshId
    World.onRequests fun now t => t.request config.timeout now id input

def respond (input : Payload) : Effect (World κ) Payload :=
  World.onRequests fun _ t => t.respond input

def perform (config : RequestingConfig) (action : String) (input : Payload) :
    Effect (World κ) Payload :=
  match action with
  | "request" => request config input
  | "respond" => respond input
  | _ => .fail (.other (name ++ " has no action " ++ action))

/-- A query about the request that its input names. -/
def about (query : String) (input : Payload)
    (answer : String → Effect (World κ) (List Payload)) : Effect (World κ) (List Payload) :=
  match input.string? "request" with
  | some id => answer id
  | none => .fail (.other (query ++ " needs a request id"))

def responseRow (response : Payload) : Payload := .single "response" (.object response)

def query (config : RequestingConfig) (query : String) (input : Payload) :
    Effect (World κ) (List Payload) :=
  match query with
  | "_awaitResponse" => about query input fun id => do
    let response ← World.awaitResponse config.timeout id
    pure [responseRow response]
  | "_getResponse" => about query input fun id => do
    let response ← .read fun w => w.requests.peek id
    pure (response.toList.map responseRow)
  | _ => .fail (.other (name ++ " has no query " ++ query))

def concept (config : RequestingConfig) : Concept (World κ) :=
  { name, operations, perform := perform config, query := query config }

def openCount (config : RequestingConfig) : Effect (World κ) Nat :=
  World.onRequests fun now t => t.openCount config.timeout now

end Requesting

end ConceptSync
