import ConceptSync.Machine

set_option autoImplicit false
set_option relaxedAutoImplicit false

/-!
Itineraries: at most one for a trip, with the events proposed for it. A finalized itinerary takes no
events and no approvals.
-/

namespace ConceptSync

namespace Travel

structure Itinerary where
  trip : String
  finalized : Bool
  events : List String
deriving Repr

structure Event where
  itinerary : String
  name : String
  cost : Double
  approved : Bool
  poll : Option String
deriving Repr

structure ItineraryPlanner where
  itineraries : Table String Itinerary
  events : Table String Event
deriving Repr

def Itinerary.document (id : String) (it : Itinerary) : Value :=
  .object <| Table.ofList
    [("_id", .string id), ("trip", .string it.trip), ("finalized", .bool it.finalized),
      ("events", .array (it.events.map Value.string))]

/-- The document of an event. It names a poll only if one is attached. -/
def Event.document (id : String) (e : Event) : Value :=
  .object <| Table.ofList <|
    [("_id", .string id), ("itineraryId", .string e.itinerary), ("name", .string e.name),
      ("cost", .ofDouble e.cost), ("approved", .bool e.approved)] ++
      (e.poll.toList.map fun poll => ("poll", .string poll))

namespace ItineraryPlanner

def empty : ItineraryPlanner := ⟨[], []⟩

def ofTrip? (s : ItineraryPlanner) (trip : String) : Option (String × Itinerary) :=
  s.itineraries.find? fun e => e.2.trip == trip

/-- The itinerary of an identifier if it can still change, else why it cannot. -/
def openItinerary (s : ItineraryPlanner) (id : String) : Except String Itinerary :=
  match s.itineraries.get? id with
  | none => .error ("Itinerary " ++ id ++ " not found.")
  | some it =>
    if it.finalized then
      .error ("Itinerary " ++ id ++ " is finalized and cannot be modified.")
    else .ok it

/-- Create the itinerary of a trip, or give the one it has. -/
def create (id : String) (input : Payload) (s : ItineraryPlanner) : Payload × ItineraryPlanner :=
  match input.text? "trip" with
  | none => (.error "Missing required field: trip", s)
  | some trip =>
    match s.ofTrip? trip with
    | some (existing, _) => (.single "itinerary" (.string existing), s)
    | none =>
      (.single "itinerary" (.string id),
        { s with itineraries := s.itineraries.insert id ⟨trip, false, []⟩ })

/-- The cost of an event may be zero but not negative. -/
def eventCost? (input : Payload) : Option Double :=
  (input.number? "cost").filter fun cost => !cost.lt .zero

def addEvent (id : String) (input : Payload) (s : ItineraryPlanner) :
    Payload × ItineraryPlanner :=
  match input.text? "itinerary", input.text? "name" with
  | some itinerary, some name =>
    match eventCost? input with
    | none => (.error "Event cost must be a non-negative number.", s)
    | some cost =>
      match s.openItinerary itinerary with
      | .error message => (.error message, s)
      | .ok it =>
        (.single "event" (.string id),
          { itineraries := s.itineraries.insert itinerary { it with events := it.events ++ [id] }
            events := s.events.insert id ⟨itinerary, name, cost, false, none⟩ })
  | _, _ => (.error "Missing required fields: name, cost, itinerary", s)

/-- Approve an event of an itinerary, or take the approval back by `false`. -/
def approveEvent (_ : String) (input : Payload) (s : ItineraryPlanner) :
    Payload × ItineraryPlanner :=
  match input.text? "itinerary", input.text? "event" with
  | some itinerary, some id =>
    let approved := ((input.get? "approved").bind Value.asBool?).getD true
    match s.openItinerary itinerary with
    | .error message => (.error message, s)
    | .ok _ =>
      -- an event of another itinerary counts as missing
      match (s.events.get? id).filter fun e => e.itinerary == itinerary with
      | some e => ([], { s with events := s.events.insert id { e with approved } })
      | none =>
        (.error ("Event " ++ id ++ " not found in itinerary " ++ itinerary ++ "."), s)
  | _, _ => (.error "itinerary and event are required.", s)

/-- Attach a poll to an event, replacing the one it had. -/
def attachPollToEvent (_ : String) (input : Payload) (s : ItineraryPlanner) :
    Payload × ItineraryPlanner :=
  match input.text? "event", input.text? "poll" with
  | some id, some poll =>
    match s.events.get? id with
    | some e => ([], { s with events := s.events.insert id { e with poll := some poll } })
    | none => (.error ("Event " ++ id ++ " not found."), s)
  | _, _ => (.error "event and poll are required.", s)

def finalizeItinerary (_ : String) (input : Payload) (s : ItineraryPlanner) :
    Payload × ItineraryPlanner :=
  match input.text? "itinerary" with
  | none => (.error "itinerary is required.", s)
  | some id =>
    match s.openItinerary id with
    | .error message => (.error message, s)
    | .ok it =>
      ([], { s with itineraries := s.itineraries.insert id { it with finalized := true } })

def itineraryRow (entry : String × Itinerary) : Payload :=
  .single "itinerary" (entry.2.document entry.1)

def getItineraryByTrip (input : Payload) (s : ItineraryPlanner) : List Payload :=
  let trip := (input.text? "trip").getD ""
  (s.itineraries.filter fun e => e.2.trip == trip).map itineraryRow

def getItineraryById (input : Payload) (s : ItineraryPlanner) : List Payload :=
  let id := (input.text? "itinerary").getD ""
  (s.itineraries.filter fun e => e.1 == id).map itineraryRow

def getEventById (input : Payload) (s : ItineraryPlanner) : List Payload :=
  let found := (input.text? "event").bind fun id => (s.events.get? id).map fun e => (id, e)
  found.toList.map fun e => .single "event" (e.2.document e.1)

/-- The events of an itinerary in order of creation that satisfy a condition. -/
def eventsWhere (keep : Event → Bool) (input : Payload) (s : ItineraryPlanner) : List Payload :=
  match (input.text? "itinerary").bind s.itineraries.get? with
  | none => []
  | some it =>
    let events := it.events.filterMap fun id => (s.events.get? id).map fun e => (id, e)
    let kept := events.filter fun e => keep e.2
    [.single "events" (.array (kept.map fun e => e.2.document e.1))]

def getAllEventsForItinerary : Payload → ItineraryPlanner → List Payload :=
  eventsWhere fun _ => true

def getApprovedEventsForItinerary : Payload → ItineraryPlanner → List Payload :=
  eventsWhere Event.approved

def machine : Machine ItineraryPlanner where
  name := "ItineraryPlanner"
  operations :=
    [((Operation.action "create").takes ["trip"]).gives ["itinerary"],
      ((Operation.action "addEvent").takes ["name", "cost", "itinerary"]).gives ["event"],
      (Operation.action "approveEvent").takes ["event", "approved", "itinerary"],
      (Operation.action "attachPollToEvent").takes ["event", "poll"],
      (Operation.action "finalizeItinerary").takes ["itinerary"],
      ((Operation.query "_getItineraryByTrip").takes ["trip"]).gives ["itinerary"],
      ((Operation.query "_getItineraryById").takes ["itinerary"]).gives ["itinerary"],
      ((Operation.query "_getEventById").takes ["event"]).gives ["event"],
      ((Operation.query "_getAllEventsForItinerary").takes ["itinerary"]).gives ["events"],
      ((Operation.query "_getApprovedEventsForItinerary").takes ["itinerary"]).gives ["events"]]
  action?
    | "create" => some create
    | "addEvent" => some addEvent
    | "approveEvent" => some approveEvent
    | "attachPollToEvent" => some attachPollToEvent
    | "finalizeItinerary" => some finalizeItinerary
    | _ => none
  query?
    | "_getItineraryByTrip" => some getItineraryByTrip
    | "_getItineraryById" => some getItineraryById
    | "_getEventById" => some getEventById
    | "_getAllEventsForItinerary" => some getAllEventsForItinerary
    | "_getApprovedEventsForItinerary" => some getApprovedEventsForItinerary
    | _ => none

end ItineraryPlanner

end Travel

end ConceptSync
