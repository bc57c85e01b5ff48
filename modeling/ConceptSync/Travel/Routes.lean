import ConceptSync.Requesting.Routes

set_option autoImplicit false
set_option relaxedAutoImplicit false

/-!
Which travel operations are called directly, and which are served by rules to users alone.
-/

namespace ConceptSync

namespace Travel

/-- Routes called directly, below the base, with the reason why they may be. -/
def inclusions : List (String × String) :=
  [("/Session/create", "sessions for auth"),
    ("/Session/validate", "sessions for auth"),
    ("/Session/destroy", "sessions for auth"),
    ("/Requesting/request", "requests are public"),
    ("/Requesting/_awaitResponse", "requests are public"),
    ("/Requesting/_getResponse", "requests are public"),
    ("/Polling/_getPoll", "polls are public"),
    ("/Polling/addVote", "anyone with the poll id may vote")]

/-- Routes served by rules, below the base. -/
def exclusions : List String :=
  ["/Requesting/respond",
    "/TripPlanning/create",
    "/TripPlanning/delete",
    "/TripPlanning/addParticipant",
    "/TripPlanning/_getTripById",
    "/TripPlanning/_getTripsByUser",
    "/TripPlanning/_getParticipantsInTrip",
    "/ItineraryPlanner/create",
    "/ItineraryPlanner/addEvent",
    "/ItineraryPlanner/approveEvent",
    "/ItineraryPlanner/attachPollToEvent",
    "/ItineraryPlanner/finalizeItinerary",
    "/ItineraryPlanner/_getItineraryByTrip",
    "/ItineraryPlanner/_getItineraryById",
    "/ItineraryPlanner/_getEventById",
    "/ItineraryPlanner/_getAllEventsForItinerary",
    "/ItineraryPlanner/_getApprovedEventsForItinerary",
    "/Polling/create",
    "/Polling/addOption",
    "/Polling/close",
    "/CostSplitting/create",
    "/CostSplitting/remove",
    "/CostSplitting/addContribution",
    "/CostSplitting/_getExpensesByItem",
    "/CostSplitting/_getTotalContributions"]

def routeTable (base : String) : RouteTable :=
  .ofLists (inclusions.map fun route => (base ++ route.1, route.2))
    (exclusions.map fun route => base ++ route)

/-- Whether a route below the base is for users alone. -/
def requiresUser (path : String) : Bool := exclusions.contains path

end Travel

end ConceptSync
