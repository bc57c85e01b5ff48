import ConceptSync.Proofs.Travel.Actions
import ConceptSync.Proofs.Travel.Reaching

set_option autoImplicit false
set_option relaxedAutoImplicit false

/-!
What is found by its identifier. In every reachable state each itinerary is found once, and each
trip is found under a name that is not blank and tells an owner who has one.
-/

namespace ConceptSync

namespace Travel

theorem Event.field?_cost_document (id : String) (e : Event) :
    (e.document id).field? "cost" = some (.ofDouble e.cost) := by
  simp only [document, Value.field?]
  cases e.poll <;> simp [Table.ofList, Table.get?_insert]

theorem Event.field?_itineraryId_document (id : String) (e : Event) :
    (e.document id).field? "itineraryId" = some (.string e.itinerary) := by
  simp only [document, Value.field?]
  cases e.poll <;> simp [Table.ofList, Table.get?_insert]

theorem Itinerary.field?_trip_document (id : String) (it : Itinerary) :
    (it.document id).field? "trip" = some (.string it.trip) := by
  simp [document, Value.field?, Table.ofList, Table.get?_insert]

theorem Trip.field?_owner_document (id : String) (trip : Trip) :
    (trip.document id).field? "owner" = some (.string trip.owner) := by
  simp [document, Value.field?, Table.ofList, Table.get?_insert]

def State.tripOf? (s : State) (itinerary : String) : Option Trip :=
  (s.planner.itineraries.get? itinerary).bind fun it => s.trips.get? it.trip

/-- Itineraries are told apart by their identifiers, and no trip or its owner has a blank name. -/
structure Legible (w : TravelWorld) : Prop where
  itineraries : w.state.planner.itineraries.Sorted
  trips : ∀ e ∈ w.state.trips, Text.isAllBlank e.1 = false ∧ Text.isAllBlank e.2.owner = false

namespace Legible

variable {w w' : TravelWorld}

private theorem start (wall : Int) : Legible (.start wall .empty) where
  itineraries := .nil
  trips := nofun

theorem rests (h : Legible w) (hrests : ∃ sessions, w'.state = { w.state with sessions }) :
    Legible w' := by
  obtain ⟨sessions, hstate⟩ := hrests
  exact ⟨by rw [hstate]; exact h.itineraries, by rw [hstate]; exact h.trips⟩

private theorem sorted_act {s : ItineraryPlanner} (h : s.itineraries.Sorted) {action : String}
    {act : String → Payload → ItineraryPlanner → Payload × ItineraryPlanner}
    (hact : ItineraryPlanner.machine.action? action = some act) (id : String) (input : Payload) :
    (act id input s).2.itineraries.Sorted := by
  have hacts := ItineraryPlanner.acts hact id input s
  generalize act id input s = ended at hacts ⊢
  cases hacts with
  | declines _ => exact h
  | finds _ _ => exact h
  | creates _ _ => exact h.insert _ _
  | adds _ _ _ => exact h.insert _ _
  | approves _ _ _ => exact h
  | attaches _ _ _ => exact h
  | finalizes _ _ => exact h.insert _ _

private theorem named_act {trips : TripPlanning}
    (h : ∀ e ∈ trips, Text.isAllBlank e.1 = false ∧ Text.isAllBlank e.2.owner = false)
    {action : String} {act : String → Payload → TripPlanning → Payload × TripPlanning}
    (hact : TripPlanning.machine.action? action = some act) {id : String}
    (hid : Text.isAllBlank id = false) (input : Payload) :
    ∀ e ∈ (act id input trips).2, Text.isAllBlank e.1 = false ∧ Text.isAllBlank e.2.owner = false := by
  have hacts := TripPlanning.acts hact id input trips
  generalize act id input trips = ended at hacts ⊢
  intro e he
  cases hacts with
  | declines _ => exact h e he
  | creates howner _ =>
    rcases Table.mem_insert he with rfl | hold
    · exact ⟨hid, (Payload.text?_eq_some.mp howner).2⟩
    · exact h e hold
  | deletes _ _ _ => exact h e ((Table.erase_sublist _ _).subset he)
  | joins _ _ _ hthere _ =>
    rcases Table.mem_insert he with rfl | hold
    · obtain ⟨hkey, howner⟩ := h _ (Table.mem_of_get? hthere)
      exact ⟨hkey, howner⟩
    · exact h e hold

theorem owner (h : Legible w) {itinerary : String} {trip : Trip}
    (htrip : w.state.tripOf? itinerary = some trip) : Text.isAllBlank trip.owner = false := by
  obtain ⟨it, -, htrip⟩ := Option.bind_eq_some_iff.mp htrip
  exact (h.trips _ (Table.mem_of_get? htrip)).2

private theorem perform (h : Legible w) {requesting : RequestingConfig} {c : Concept TravelWorld}
    (hc : c ∈ Requesting.concept requesting :: concepts) (action : String) (input : Payload) :
    Legible (c.perform action input w).2 := by
  have hdoes := Does.of_concept hc action input w
  generalize c.perform action input w = ended at hdoes ⊢
  cases hdoes with
  | rests hrests => exact h.rests hrests.state
  | trips _ hact =>
    exact ⟨h.itineraries, named_act h.trips hact (Uuid.not_isAllBlank_text _) input⟩
  | planner _ hact => exact ⟨sorted_act h.itineraries hact _ input, h.trips⟩
  | polls _ _ => exact ⟨h.itineraries, h.trips⟩
  | costs _ _ => exact ⟨h.itineraries, h.trips⟩

end Legible

namespace App

variable {config : AppConfig} {app : App} {stage : AppStage}

theorem Reachable.legible (happ : app.IsBuilt config) (h : app.Reachable stage) :
    Legible stage.world :=
  h.world_of_kept happ .start (fun _ hc action input _ hworld => hworld.perform hc action input)
    fun _ _ hrests hworld => hworld.rests hrests.state

theorem IsBuilt.legible_perform (happ : app.IsBuilt config) {w : TravelWorld} (h : Legible w)
    (id : ActionId) (input : Payload) :
    Legible (app.engine.registry.perform id input w).2 := by
  rcases happ.perform_cases id with ⟨failure, hfails⟩ | ⟨c, hc, op, _, _, hperforms⟩
  · exact hfails input ▸ h
  · exact hperforms input ▸ h.perform hc op.name input

end App

section Rows

variable {w : TravelWorld}

private theorem ask_getEventById {id : String} {e : Event} (hid : Text.isAllBlank id = false)
    (hstored : w.state.planner.events.get? id = some e) :
    ItineraryPlanner.machine.ask State.plannerPart "_getEventById" [("event", .string id)] w =
      (.ok [.single "event" (e.document id)], w) := by
  change (Outcome.ok (ItineraryPlanner.getEventById _ w.state.planner), w) = _
  simp [ItineraryPlanner.getEventById, Payload.text?_single hid, hstored]

private theorem Legible.ask_getItineraryById (h : Legible w) {id : String} {it : Itinerary}
    (hid : Text.isAllBlank id = false) (hstored : w.state.planner.itineraries.get? id = some it) :
    ItineraryPlanner.machine.ask State.plannerPart "_getItineraryById"
        [("itinerary", .string id)] w =
      (.ok [.single "itinerary" (it.document id)], w) := by
  change (Outcome.ok (ItineraryPlanner.getItineraryById _ w.state.planner), w) = _
  simp [ItineraryPlanner.getItineraryById, Payload.text?_single hid, h.itineraries.filter_key,
    hstored, ItineraryPlanner.itineraryRow]

private theorem Legible.ask_getTripById (h : Legible w) (id : String) :
    TripPlanning.machine.ask State.tripsPart "_getTripById" [("tripId", .string id)] w =
      (.ok ((w.state.trips.get? id).toList.map fun trip => .single "trip" (trip.document id)),
        w) := by
  change (Outcome.ok (TripPlanning.getTripById _ w.state.trips), w) = _
  unfold TripPlanning.getTripById TripPlanning.named?
  cases hid : Text.isAllBlank id with
  | false =>
    rw [Payload.text?_single hid, Option.bind_some]
    cases w.state.trips.get? id <;> rfl
  | true =>
    rw [Payload.text?_single_blank hid]
    cases hstored : w.state.trips.get? id with
    | none => rfl
    | some trip =>
      have hnamed := (h.trips _ (Table.mem_of_get? hstored)).1
      simp [hid] at hnamed

variable {call : Payload → Effect TravelWorld (List Payload)} {f : Frame} {key v : Var}

theorem bridge_getEventById
    (hcall : call = ItineraryPlanner.machine.ask State.plannerPart "_getEventById")
    {id : String} {e : Event} (hkey : f.get? key = some (.string id)) (hfree : f.get? v = none)
    (hid : Text.isAllBlank id = false) (hstored : w.state.planner.events.get? id = some e) :
    Frame.bridge call [("event", .var key)] [("event", .var v)] [f] w =
      (.ok [f.insert v (e.document id)], w) := by
  subst hcall
  exact Frame.bridge_single hkey (ask_getEventById hid hstored) hfree

theorem Legible.bridge_getItineraryById (h : Legible w)
    (hcall : call = ItineraryPlanner.machine.ask State.plannerPart "_getItineraryById")
    {id : String} {it : Itinerary} (hkey : f.get? key = some (.string id))
    (hfree : f.get? v = none) (hid : Text.isAllBlank id = false)
    (hstored : w.state.planner.itineraries.get? id = some it) :
    Frame.bridge call [("itinerary", .var key)] [("itinerary", .var v)] [f] w =
      (.ok [f.insert v (it.document id)], w) := by
  subst hcall
  exact Frame.bridge_single hkey (h.ask_getItineraryById hid hstored) hfree

theorem Legible.bridge_getTripById (h : Legible w)
    (hcall : call = TripPlanning.machine.ask State.tripsPart "_getTripById")
    {id : String} (hkey : f.get? key = some (.string id)) (hfree : f.get? v = none) :
    Frame.bridge call [("tripId", .var key)] [("trip", .var v)] [f] w =
      (.ok ((w.state.trips.get? id).toList.map fun trip => f.insert v (trip.document id)), w) := by
  subst hcall
  have hrows := h.ask_getTripById id
  rw [← Function.comp_def, ← List.map_map] at hrows
  rw [Frame.bridge_rows hkey hrows hfree, List.map_map]
  rfl

end Rows

end Travel

end ConceptSync
