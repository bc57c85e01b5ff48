import ConceptSync.Travel.Rules.Background

set_option autoImplicit false
set_option relaxedAutoImplicit false

/-!
All travel rules in their order. Earlier rules are matched first: the gate comes before every
handler, and what is unhandled is found out last.
-/

namespace ConceptSync

namespace Travel

def createTrip : Handler :=
  ⟨"CreateTrip", "TripPlanning", "create", some "owner", ["name", "destination", "dateRange"],
    [("tripId", "tripId")], true⟩

def deleteTrip : Handler :=
  ⟨"DeleteTrip", "TripPlanning", "delete", some "owner", ["tripId"], [("deleted", "tripId")],
    false⟩

def addParticipant : Handler :=
  ⟨"AddParticipant", "TripPlanning", "addParticipant", some "owner", ["tripId", "participant"],
    [("added", "participant")], false⟩

def createItinerary : Handler :=
  ⟨"CreateItinerary", "ItineraryPlanner", "create", none, ["trip"], [("itinerary", "itinerary")],
    true⟩

def addEvent : Handler :=
  ⟨"AddEvent", "ItineraryPlanner", "addEvent", none, ["name", "cost", "itinerary"],
    [("event", "event")], true⟩

/-- Approval is taken back by `approved: false`. -/
def approveEvent : Handler :=
  ⟨"ApproveEvent", "ItineraryPlanner", "approveEvent", none, ["event", "approved", "itinerary"],
    [("event", "event"), ("approved", "approved")], false⟩

def finalizeItinerary : Handler :=
  ⟨"FinalizeItinerary", "ItineraryPlanner", "finalizeItinerary", none, ["itinerary"],
    [("finalized", "itinerary")], false⟩

def createPoll : Handler :=
  ⟨"CreatePoll", "Polling", "create", some "user", ["name"], [("poll", "poll")], true⟩

def addOption : Handler :=
  ⟨"AddOption", "Polling", "addOption", some "actingUser", ["poll", "label"],
    [("poll", "poll"), ("option", "label")], false⟩

def closePoll : Handler :=
  ⟨"ClosePoll", "Polling", "close", some "actingUser", ["poll"], [("closed", "poll")], false⟩

def addContribution : Handler :=
  ⟨"AddContribution", "CostSplitting", "addContribution", some "userId", ["expenseId", "amount"],
    [("expenseId", "expenseId"), ("contributed", "amount")], false⟩

def removeExpense : Handler :=
  ⟨"RemoveExpense", "CostSplitting", "remove", none, ["expenseId"], [("removed", "expenseId")],
    false⟩

def handlers : List Handler :=
  [createTrip, deleteTrip, addParticipant, createItinerary, addEvent, approveEvent,
    finalizeItinerary, createPoll, addOption, closePoll, addContribution, removeExpense]

def getTripById : Lookup := ⟨"GetTripById", "TripPlanning", "_getTripById", "tripId", "trip"⟩

def getParticipantsInTrip : Lookup :=
  ⟨"GetParticipantsInTrip", "TripPlanning", "_getParticipantsInTrip", "tripId", "participants"⟩

def itineraryLookups : List Lookup :=
  [⟨"GetItineraryByTrip", "ItineraryPlanner", "_getItineraryByTrip", "trip", "itinerary"⟩,
    ⟨"GetItineraryById", "ItineraryPlanner", "_getItineraryById", "itinerary", "itinerary"⟩,
    ⟨"GetEventById", "ItineraryPlanner", "_getEventById", "event", "event"⟩,
    ⟨"GetAllEventsForItinerary", "ItineraryPlanner", "_getAllEventsForItinerary", "itinerary",
      "events"⟩,
    ⟨"GetApprovedEventsForItinerary", "ItineraryPlanner", "_getApprovedEventsForItinerary",
      "itinerary", "events"⟩]

def costLookups : List Lookup :=
  [⟨"GetExpensesByItem", "CostSplitting", "_getExpensesByItem", "item", "expenses"⟩,
    ⟨"GetTotalContributions", "CostSplitting", "_getTotalContributions", "expenseId", "total"⟩]

def rules : List (RuleDefinition TravelWorld) :=
  [requireUser, createItineraryForTrip, createPollForEvent, attachPollToEvent,
      createExpenseForApprovedEvent] ++
    createTrip.rules ++ deleteTrip.rules ++ [getTripById.rule, getTripsByUser] ++
    addParticipant.rules ++ [getParticipantsInTrip.rule] ++
    createItinerary.rules ++ addEvent.rules ++ approveEvent.rules ++ finalizeItinerary.rules ++
    itineraryLookups.map Lookup.rule ++
    createPoll.rules ++ addOption.rules ++ closePoll.rules ++
    addContribution.rules ++ removeExpense.rules ++ costLookups.map Lookup.rule ++
    [unhandledRequest]

end Travel

end ConceptSync
