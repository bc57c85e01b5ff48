import ConceptSync.Machine

set_option autoImplicit false
set_option relaxedAutoImplicit false

/-!
Trips. A trip belongs to its owner, who alone may delete it or add participants. The owner is the
first participant.
-/

namespace ConceptSync

namespace Travel

structure Trip where
  owner : String
  name : String
  destination : Value
  dateRange : Value
  participants : List String
deriving Repr

abbrev TripPlanning := Table String Trip

def Trip.document (id : String) (trip : Trip) : Value :=
  .object <| Table.ofList
    [("_id", .string id), ("owner", .string trip.owner), ("name", .string trip.name),
      ("destination", trip.destination), ("dateRange", trip.dateRange),
      ("participants", .array (trip.participants.map Value.string))]

namespace TripPlanning

def create (id : String) (input : Payload) (trips : TripPlanning) : Payload × TripPlanning :=
  match input.text? "owner", input.text? "name" with
  | none, _ => (.error "Trip owner is required.", trips)
  | some _, none => (.error "Trip name is required.", trips)
  | some owner, some name =>
    let trip : Trip :=
      { owner
        name
        destination := (input.get? "destination").getD .null
        dateRange := (input.get? "dateRange").getD .null
        participants := [owner] }
    (.single "tripId" (.string id), trips.insert id trip)

def delete (_ : String) (input : Payload) (trips : TripPlanning) : Payload × TripPlanning :=
  match input.text? "owner", input.text? "tripId" with
  | some owner, some id =>
    match trips.get? id with
    | none => (.error ("Trip " ++ id ++ " not found."), trips)
    | some trip =>
      if trip.owner = owner then ([], trips.erase id)
      else (.error "Only the trip owner can delete a trip.", trips)
  | _, _ => (.error "owner and tripId are required.", trips)

/-- Add a participant to a trip of its owner. -/
def addParticipant (_ : String) (input : Payload) (trips : TripPlanning) :
    Payload × TripPlanning :=
  match input.text? "owner", input.text? "tripId", input.text? "participant" with
  | some owner, some id, some participant =>
    match trips.get? id with
    | none => (.error ("Trip " ++ id ++ " not found."), trips)
    | some trip =>
      if trip.owner ≠ owner then (.error "Only the trip owner can add participants.", trips)
      else if participant ∈ trip.participants then
        (.error (participant ++ " is already a participant."), trips)
      else
        ([], trips.insert id { trip with participants := trip.participants ++ [participant] })
  | _, _, _ => (.error "owner, tripId and participant are required.", trips)

/-- The trip of an identifier, if there is one. -/
def named? (input : Payload) (trips : TripPlanning) : Option (String × Trip) :=
  (input.text? "tripId").bind fun id => (trips.get? id).map fun trip => (id, trip)

def tripRow (entry : String × Trip) : Payload := .single "trip" (entry.2.document entry.1)

def getTripById (input : Payload) (trips : TripPlanning) : List Payload :=
  (named? input trips).toList.map tripRow

def getTripsByUser (input : Payload) (trips : TripPlanning) : List Payload :=
  match input.text? "user" with
  | none => []
  | some user => (trips.filter fun e => e.2.participants.contains user).map tripRow

def getParticipantsInTrip (input : Payload) (trips : TripPlanning) : List Payload :=
  (named? input trips).toList.map fun e =>
    .single "participants" (.array (e.2.participants.map Value.string))

def machine : Machine TripPlanning where
  name := "TripPlanning"
  operations :=
    [((Operation.action "create").takes ["owner", "destination", "dateRange", "name"]).gives
        ["tripId"],
      (Operation.action "delete").takes ["owner", "tripId"],
      (Operation.action "addParticipant").takes ["owner", "tripId", "participant"],
      ((Operation.query "_getTripById").takes ["tripId"]).gives ["trip"],
      ((Operation.query "_getTripsByUser").takes ["user"]).gives ["trip"],
      ((Operation.query "_getParticipantsInTrip").takes ["tripId"]).gives ["participants"]]
  action?
    | "create" => some create
    | "delete" => some delete
    | "addParticipant" => some addParticipant
    | _ => none
  query?
    | "_getTripById" => some getTripById
    | "_getTripsByUser" => some getTripsByUser
    | "_getParticipantsInTrip" => some getParticipantsInTrip
    | _ => none

end TripPlanning

end Travel

end ConceptSync
