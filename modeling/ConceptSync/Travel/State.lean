import ConceptSync.Travel.CostSplitting
import ConceptSync.Travel.ItineraryPlanner
import ConceptSync.Travel.Polling
import ConceptSync.Travel.Sessions
import ConceptSync.Travel.TripPlanning

set_option autoImplicit false
set_option relaxedAutoImplicit false

/-!
The state of all travel concepts. None of them sees another's part.
-/

namespace ConceptSync

namespace Travel

structure State where
  sessions : Sessions
  trips : TripPlanning
  planner : ItineraryPlanner
  polls : Polling
  costs : CostSplitting
deriving Repr

namespace State

def empty : State := ⟨[], [], .empty, [], []⟩

def sessionsPart : Part State Sessions := ⟨State.sessions, fun s sessions => { s with sessions }⟩

def tripsPart : Part State TripPlanning := ⟨State.trips, fun s trips => { s with trips }⟩

def plannerPart : Part State ItineraryPlanner :=
  ⟨State.planner, fun s planner => { s with planner }⟩

def pollsPart : Part State Polling := ⟨State.polls, fun s polls => { s with polls }⟩

def costsPart : Part State CostSplitting := ⟨State.costs, fun s costs => { s with costs }⟩

end State

abbrev TravelWorld := World State

def concepts : List (Concept TravelWorld) :=
  [Sessions.concept State.sessionsPart, TripPlanning.machine.concept State.tripsPart,
    ItineraryPlanner.machine.concept State.plannerPart,
    Polling.machine.concept State.pollsPart, CostSplitting.machine.concept State.costsPart]

end Travel

end ConceptSync
