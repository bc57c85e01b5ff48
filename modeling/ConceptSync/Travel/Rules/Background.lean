import ConceptSync.Travel.Routes
import ConceptSync.Travel.Rules.Requests

set_option autoImplicit false
set_option relaxedAutoImplicit false

/-!
Rules that serve no single route: the gate that only users pass, the wiring between concepts, and
the answer to requests that no other rule answers.
-/

namespace ConceptSync

namespace Travel

/-- Requests for users alone are answered at once when there is no user. -/
def requireUser : RuleDefinition TravelWorld where
  name := "PassthroughAuth"
  build registry := do
    let request ← Builder.var "request"
    let path ← Builder.var "path"
    let user ← Builder.var "user"
    let opened ← actionPattern registry "Requesting" "request"
    let answer ← respond registry
    let opened := withInputs opened [("path", path), ("user", user)]
    let answer := withInputs answer [("request", request)]
    let answer := answer.withInput "error" (.literal (.string "Unauthorized"))
    pure
      { whenPatterns := [withOutputs opened [("request", request)]]
        whereClause := some fun frames => pure <| frames.filter fun f =>
          ((f.text? path).any requiresUser) && !f.isPresent user
        thenPatterns := [answer.withInput "status" (.literal (.ofInt 401))] }

/-- A field of the document that a variable stands for, or null. -/
def documentField (f : Frame) (document : Var) (name : String) : Value :=
  ((f.get? document).bind fun d => d.field? name).getD .null

/-- A new trip gets an itinerary. -/
def createItineraryForTrip : RuleDefinition TravelWorld where
  name := "CreateItineraryForTrip"
  build registry := do
    let tripId ← Builder.var "tripId"
    let created ← actionPattern registry "TripPlanning" "create"
    let create ← actionPattern registry "ItineraryPlanner" "create"
    pure
      { whenPatterns := [withOutputs created [("tripId", tripId)]]
        thenPatterns := [withInputs create [("trip", tripId)]] }

/-- A new event gets a poll named after it, created by the owner of the trip that its itinerary
belongs to. -/
def createPollForEvent : RuleDefinition TravelWorld where
  name := "CreatePollForEvent"
  build registry := do
    let event ← Builder.var "event"
    let eventDoc ← Builder.var "eventDoc"
    let itinerary ← Builder.var "itinerary"
    let itineraryDoc ← Builder.var "itineraryDoc"
    let tripId ← Builder.var "tripId"
    let tripDoc ← Builder.var "tripDoc"
    let pollName ← Builder.var "pollName"
    let tripOwner ← Builder.var "tripOwner"
    let eventById ← queryOf registry "ItineraryPlanner" "_getEventById"
    let itineraryById ← queryOf registry "ItineraryPlanner" "_getItineraryById"
    let tripById ← queryOf registry "TripPlanning" "_getTripById"
    let added ← actionPattern registry "ItineraryPlanner" "addEvent"
    let create ← actionPattern registry "Polling" "create"
    let belongs (f : Frame) : Bool :=
      match (f.get? eventDoc).bind (fun d => d.field? "itineraryId"), f.get? itinerary with
      | some a, some b => a.identical b
      -- two missing identifiers are the same as well
      | none, none => true
      | _, _ => false
    let nameAndOwner (f : Frame) : Frame :=
      let owner := documentField f tripDoc "owner"
      let name := "event-" ++ (f.text? event).getD ""
      (f.insert tripOwner owner).insert pollName (.string name)
    pure
      { whenPatterns :=
          [withOutputs (withInputs added [("itinerary", itinerary)]) [("event", event)]]
        whereClause := some fun frames => do
          let frames ← Frame.bridge eventById.call [("event", .var event)]
            [("event", .var eventDoc)] frames
          let frames ← Frame.bridge itineraryById.call [("itinerary", .var itinerary)]
            [("itinerary", .var itineraryDoc)] (frames.filter belongs)
          let frames := frames.map fun f => f.insert tripId (documentField f itineraryDoc "trip")
          let frames ← Frame.bridge tripById.call [("tripId", .var tripId)]
            [("trip", .var tripDoc)] frames
          pure (frames.map nameAndOwner)
        thenPatterns := [withInputs create [("user", tripOwner), ("name", pollName)]] }

/-- An event and a poll of one run are linked. -/
def attachPollToEvent : RuleDefinition TravelWorld where
  name := "AttachPollToEvent"
  build registry := do
    let event ← Builder.var "event"
    let poll ← Builder.var "poll"
    let added ← actionPattern registry "ItineraryPlanner" "addEvent"
    let created ← actionPattern registry "Polling" "create"
    let attach ← actionPattern registry "ItineraryPlanner" "attachPollToEvent"
    pure
      { whenPatterns :=
          [withOutputs added [("event", event)], withOutputs created [("poll", poll)]]
        thenPatterns := [withInputs attach [("event", event), ("poll", poll)]] }

/-- An approved event becomes an expense of its cost. -/
def createExpenseForApprovedEvent : RuleDefinition TravelWorld where
  name := "CreateExpenseForApprovedEvent"
  build registry := do
    let event ← Builder.var "event"
    let eventDoc ← Builder.var "eventDoc"
    let cost ← Builder.var "cost"
    let eventById ← queryOf registry "ItineraryPlanner" "_getEventById"
    let approve ← actionPattern registry "ItineraryPlanner" "approveEvent"
    let create ← actionPattern registry "CostSplitting" "create"
    let approved := (withInputs approve [("event", event)]).withInput "approved"
      (.literal (.bool true))
    pure
      { whenPatterns := [approved.succeeded]
        whereClause := some fun frames => do
          let frames ← Frame.bridge eventById.call [("event", .var event)]
            [("event", .var eventDoc)] frames
          pure (frames.map fun f => f.insert cost (documentField f eventDoc "cost"))
        thenPatterns := [withInputs create [("item", event), ("cost", cost)]] }

/-- The document of an optional value: null if there is none. -/
def orNull (v : Option Value) : Value := v.getD .null

/-- All trips of a user are collected into one answer. -/
def getTripsByUser : RuleDefinition TravelWorld where
  name := "GetTripsByUser"
  build registry := do
    let request ← Builder.var "request"
    let user ← Builder.var "user"
    let trips ← Builder.var "trips"
    let tripsByUser ← queryOf registry "TripPlanning" "_getTripsByUser"
    let opened ← requestTo registry "/TripPlanning/_getTripsByUser"
    let answer ← respond registry
    let opened := withOutputs (withInputs opened [("user", user)]) [("request", request)]
    let rec collect : Refinement TravelWorld
      | [] => pure []
      | f :: rest => do
        let rows ← tripsByUser.call (.single "user" (orNull (f.get? user)))
        let found := rows.filterMap fun row => row.get? "trip"
        let later ← collect rest
        pure (Table.insert f trips (.array found) :: later)
    pure
      { whenPatterns := [opened]
        whereClause := some fun frames => collect (frames.filter fun f => f.isPresent user)
        thenPatterns := [withInputs answer [("request", request), ("trips", trips)]] }

/-- A request that no earlier rule answered is answered as unknown. -/
def unhandledRequest : RuleDefinition TravelWorld where
  name := "UnhandledRequest"
  build registry := do
    let request ← Builder.var "request"
    let path ← Builder.var "path"
    let error ← Builder.var "error"
    let responseOf ← queryOf registry "Requesting" "_getResponse"
    let opened ← actionPattern registry "Requesting" "request"
    let answer ← respond registry
    let opened := withOutputs (withInputs opened [("path", path)]) [("request", request)]
    let answer := withInputs answer [("request", request), ("error", error)]
    let rec unanswered : Refinement TravelWorld
      | [] => pure []
      | f :: rest => do
        -- the rule comes last, so an answer of any other rule is in the table by now
        let rows ← responseOf.call (.single "request" (orNull (f.get? request)))
        let later ← unanswered rest
        let route := (f.text? path).getD ""
        pure (if rows.isEmpty
          then Table.insert f error (.string ("No handler for " ++ route)) :: later
          else later)
    pure
      { whenPatterns := [opened]
        whereClause := some unanswered
        thenPatterns := [answer.withInput "status" (.literal (.ofInt 404))] }

end Travel

end ConceptSync
