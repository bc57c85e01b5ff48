import ConceptSync.Proofs.Engine.SecondFiring
import ConceptSync.Proofs.Rule.Building
import ConceptSync.Proofs.Travel.Lookups
import ConceptSync.Proofs.Travel.Requests

set_option autoImplicit false
set_option relaxedAutoImplicit false

/-!
The rules that give events their polls. One asks for a poll of the owner of the trip that the
event's itinerary is of, if the trip is there; the other attaches a poll to the event that was added
before it.
-/

namespace ConceptSync

namespace Travel

def pollOf (event : String) (trip : Trip) : Payload :=
  Table.ofList [("user", .string trip.owner), ("name", .string ("event-" ++ event))]

def attachmentOf (event poll : String) : Payload :=
  Table.ofList [("event", .string event), ("poll", .string poll)]

/-- A world in which an event is stored that is of an itinerary. -/
structure Proposes (w : TravelWorld) (itinerary event : String) : Prop where
  legible : Legible w
  named : Text.isAllBlank itinerary = false ∧ Text.isAllBlank event = false
  there : (w.state.planner.itineraries.get? itinerary).isSome = true
  stored : (w.state.planner.events.get? event).map Event.itinerary = some itinerary

section Making

variable {registry : Registry TravelWorld} {rule : Rule TravelWorld}

/-- A rule that asks for a poll of each event that is added to the itinerary of a trip. -/
structure MakesPolls (registry : Registry TravelWorld) (rule : Rule TravelWorld)
    (add create : ActionId) (p : Pattern) : Prop where
  listens : registry.action "ItineraryPlanner" "addEvent" = .ok add
  invokes : registry.action "Polling" "create" = .ok create
  whenPatterns : rule.clauses.whenPatterns = [p]
  fires : ∀ (input : Payload) (itinerary event : String),
    input.get? "itinerary" = some (.string itinerary) →
      ∃ f, p.unify? add input (.single "event" (.string event)) = some f ∧
        ∀ world, Proposes world itinerary event → ∃ left,
          refine rule [f] world = (.frames left, world) ∧
            left.map rule.invocations = (world.state.tripOf? itinerary).toList.map fun trip =>
              [(create, pollOf event trip)]

private theorem unify_added (add : ActionId) {itinerary event : Var} (hne : itinerary ≠ event)
    {input output : Payload} {i e : Value} (hi : input.get? "itinerary" = some i)
    (he : output.get? "event" = some e) :
    ∃ f, (withOutputs (withInputs (.of add) [("itinerary", itinerary)])
        [("event", event)]).unify? add input output = some f ∧
      f.get? itinerary = some i ∧ f.get? event = some e ∧
      ∀ v, v ≠ itinerary → v ≠ event → f.get? v = none := by
  obtain ⟨f, hunify, hin, hout, hfree⟩ := Pattern.unify?_of_fields
    (p := withOutputs (withInputs (.of add) [("itinerary", itinerary)]) [("event", event)])
    output (.refl _) (.refl _) rfl (by simpa using hne : [itinerary, event].Nodup)
    (Template.admits_var itinerary hi (Template.admits_nil input))
    (Template.admits_var event he (Template.admits_nil output))
  refine ⟨f, hunify, (hin "itinerary" itinerary (List.mem_singleton_self _)).trans hi,
    (hout "event" event (List.mem_singleton_self _)).trans he, fun v hv hv' => hfree v ?_⟩
  change v ∉ [itinerary, event]
  simp [hv, hv']

private theorem Proposes.reads_event {w : TravelWorld} {i e : String} (h : Proposes w i e)
    {call : Payload → Effect TravelWorld (List Payload)} {f : Frame} {event eventDoc : Var}
    (hcall : call = ItineraryPlanner.machine.ask State.plannerPart "_getEventById")
    (hevent : f.get? event = some (.string e)) (hfree : f.get? eventDoc = none) :
    ∃ doc : Value, doc.field? "itineraryId" = some (.string i) ∧
      Frame.bridge call [("event", .var event)] [("event", .var eventDoc)] [f] w =
        (.ok [f.insert eventDoc doc], w) := by
  obtain ⟨ev, hstored, hof⟩ := Option.map_eq_some_iff.mp h.stored
  refine ⟨ev.document e, ?_, bridge_getEventById hcall hevent hfree h.named.2 hstored⟩
  rw [ev.field?_itineraryId_document, hof]

private theorem Proposes.reads_itinerary {w : TravelWorld} {i e : String} (h : Proposes w i e)
    {call : Payload → Effect TravelWorld (List Payload)} {f : Frame}
    {itinerary itineraryDoc : Var}
    (hcall : call = ItineraryPlanner.machine.ask State.plannerPart "_getItineraryById")
    (hitinerary : f.get? itinerary = some (.string i)) (hfree : f.get? itineraryDoc = none) :
    ∃ (doc : Value) (trip : String), doc.field? "trip" = some (.string trip) ∧
      w.state.tripOf? i = w.state.trips.get? trip ∧
      Frame.bridge call [("itinerary", .var itinerary)] [("itinerary", .var itineraryDoc)] [f] w =
        (.ok [f.insert itineraryDoc doc], w) := by
  obtain ⟨it, hthere⟩ := Option.isSome_iff_exists.mp h.there
  refine ⟨it.document i, it.trip, it.field?_trip_document i, ?_,
    h.legible.bridge_getItineraryById hcall hitinerary hfree h.named.1 hthere⟩
  rw [State.tripOf?, hthere, Option.bind_some]

private theorem Proposes.reads {w : TravelWorld} {i e : String} (h : Proposes w i e)
    {askEvents askItineraries askTrips : Payload → Effect TravelWorld (List Payload)}
    (hevents : askEvents = ItineraryPlanner.machine.ask State.plannerPart "_getEventById")
    (hitineraries : askItineraries =
      ItineraryPlanner.machine.ask State.plannerPart "_getItineraryById")
    (htrips : askTrips = TripPlanning.machine.ask State.tripsPart "_getTripById")
    {f : Frame} {event eventDoc itinerary itineraryDoc tripId tripDoc : Var}
    (hdistinct : [tripDoc, tripId, itineraryDoc, itinerary, eventDoc, event].Nodup)
    (hitinerary : f.get? itinerary = some (.string i)) (hevent : f.get? event = some (.string e))
    (hfree : ∀ v, v ≠ itinerary → v ≠ event → f.get? v = none) :
    ∃ (doc doc' : Value) (trip : String), doc.field? "itineraryId" = some (.string i) ∧
      doc'.field? "trip" = some (.string trip) ∧ w.state.tripOf? i = w.state.trips.get? trip ∧
      Frame.bridge askEvents [("event", .var event)] [("event", .var eventDoc)] [f] w =
        (.ok [f.insert eventDoc doc], w) ∧
      Frame.bridge askItineraries [("itinerary", .var itinerary)]
        [("itinerary", .var itineraryDoc)] [f.insert eventDoc doc] w =
        (.ok [(f.insert eventDoc doc).insert itineraryDoc doc'], w) ∧
      Frame.bridge askTrips [("tripId", .var tripId)] [("trip", .var tripDoc)]
        [((f.insert eventDoc doc).insert itineraryDoc doc').insert tripId (.string trip)] w =
        (.ok ((w.state.trips.get? trip).toList.map fun t =>
          (((f.insert eventDoc doc).insert itineraryDoc doc').insert tripId
            (.string trip)).insert tripDoc (t.document trip)), w) := by
  simp only [List.nodup_cons, List.mem_cons, List.not_mem_nil, or_false, not_or, not_false_eq_true,
    List.nodup_nil, and_true] at hdistinct
  obtain ⟨⟨htripId, htripDoc, htripIt, htripEv, htripEvent⟩, -,
    ⟨hdocIt, hdocEv, hdocEvent⟩, ⟨hitEv, -⟩, hevDoc⟩ := hdistinct
  obtain ⟨doc, hbelongs, hbridge⟩ :=
    h.reads_event hevents hevent (hfree eventDoc (Ne.symm hitEv) hevDoc)
  have hstill : (f.insert eventDoc doc).get? itinerary = some (.string i) := by
    rw [Table.get?_insert, if_neg (Ne.symm hitEv), hitinerary]
  have hunread : (f.insert eventDoc doc).get? itineraryDoc = none := by
    rw [Table.get?_insert, if_neg (Ne.symm hdocEv)]
    exact hfree _ hdocIt hdocEvent
  obtain ⟨doc', trip, htrip, htripOf, hbridge'⟩ := h.reads_itinerary hitineraries hstill hunread
  refine ⟨doc, doc', trip, hbelongs, htrip, htripOf, hbridge, hbridge',
    h.legible.bridge_getTripById htrips (Table.get?_insert_self _ _ _) ?_⟩
  rw [Table.get?_insert, if_neg (Ne.symm htripId), Table.get?_insert, if_neg (Ne.symm htripDoc),
    Table.get?_insert, if_neg (Ne.symm htripEv)]
  exact hfree _ htripIt htripEvent

private theorem invocations_of_proposal {create : ActionId} {event tripDoc tripOwner pollName : Var}
    (hthen : rule.clauses.thenPatterns =
      [withInputs (.of create) [("user", tripOwner), ("name", pollName)]])
    (hne : tripOwner ≠ pollName) {f : Frame} {e id : String} {trip : Trip}
    (hevent : f.get? event = some (.string e)) (htrip : f.get? tripDoc = some (trip.document id)) :
    rule.invocations ((f.insert tripOwner (documentField f tripDoc "owner")).insert pollName
      (.string ("event-" ++ (f.text? event).getD ""))) = [(create, pollOf e trip)] := by
  have howner : documentField f tripDoc "owner" = .string trip.owner := by
    rw [documentField, htrip, Option.bind_some, trip.field?_owner_document, Option.getD_some]
  have hname : f.text? event = some e := by
    rw [Frame.text?, hevent, Option.bind_some, Value.asString?]
  refine invocations_withInputs hthen (.cons ⟨rfl, ?_⟩ (.cons ⟨rfl, ?_⟩ .nil))
  · rw [Table.get?_insert, if_neg (Ne.symm hne), Table.get?_insert_self, howner]
  · rw [Table.get?_insert_self, hname, Option.getD_some]

theorem makesPolls_of_builds
    (hplanner : ∀ name q, registry.query "ItineraryPlanner" name = .ok q →
      q.call = ItineraryPlanner.machine.ask State.plannerPart name)
    (htrips : ∀ name q, registry.query "TripPlanning" name = .ok q →
      q.call = TripPlanning.machine.ask State.tripsPart name)
    (hbuilds : createPollForEvent.Builds registry rule) :
    ∃ add create p, MakesPolls registry rule add create p := by
  refine hbuilds.elim_over ?_
  refine .var (by simp) fun event h₁ => .var (by simp) fun eventDoc h₂ => ?_
  refine .var (by simp) fun itinerary h₃ => .var (by simp) fun itineraryDoc h₄ => ?_
  refine .var (by simp) fun tripId h₅ => .var (by simp) fun tripDoc h₆ => ?_
  refine .var (by simp) fun pollName h₇ => .var (by simp) fun tripOwner h₈ => .of_ensures ?_
  simp only [List.nil_append, List.map_cons, List.map_nil, List.cons_append, List.mem_cons,
    List.not_mem_nil, or_false, not_or] at h₁ h₂ h₃ h₄ h₅ h₆ h₇ h₈
  refine ensures_queryOf fun eventById heventById => ?_
  refine ensures_queryOf fun itineraryById hitineraryById => ?_
  refine ensures_queryOf fun tripById htripById => ?_
  refine ensures_actionPattern fun add hadd => ensures_actionPattern fun create hcreate => ?_
  refine .pure ?_
  intro rule hclauses
  refine ⟨add, create, _, hadd, hcreate, by rw [hclauses], fun input i e hi => ?_⟩
  have hadded : (Payload.single "event" (.string e)).get? "event" = some (.string e) := rfl
  obtain ⟨f, hunify, hitinerary, hevent, hfree⟩ := unify_added add h₃.1 hi hadded
  refine ⟨f, hunify, fun world hproposes => ?_⟩
  have hdistinct : [tripDoc, tripId, itineraryDoc, itinerary, eventDoc, event].Nodup := by
    simp [h₂, h₃, h₄, h₅, h₆]
  obtain ⟨doc, doc', trip, hbelongs, htrip, htripOf, hbridge₁, hbridge₂, hbridge₃⟩ :=
    hproposes.reads (hplanner _ _ heventById) (hplanner _ _ hitineraryById) (htrips _ _ htripById)
      hdistinct hitinerary hevent hfree
  have hnext : documentField ((f.insert eventDoc doc).insert itineraryDoc doc') itineraryDoc
      "trip" = .string trip := by
    rw [documentField, Table.get?_insert_self, Option.bind_some, htrip, Option.getD_some]
  simp only [htripOf, refine, hclauses]
  rw [Effect.bind_of_ok hbridge₁, List.filter_cons_of_pos, List.filter_nil,
    Effect.bind_of_ok hbridge₂, List.map_cons, List.map_nil, hnext, Effect.bind_of_ok hbridge₃]
  · refine ⟨_, rfl, ?_⟩
    rw [List.map_map, List.map_map]
    refine List.map_congr_left fun t _ => ?_
    refine invocations_of_proposal (by rw [hclauses]) h₈.2.2.2.2.2.2 (e := e) ?_
      (Table.get?_insert_self _ _ _)
    rw [Table.get?_insert, if_neg h₆.1, Table.get?_insert, if_neg h₅.1, Table.get?_insert,
      if_neg h₄.1, Table.get?_insert, if_neg h₂, hevent]
  · have hstill : (f.insert eventDoc doc).get? itinerary = some (.string i) := by
      rw [Table.get?_insert, if_neg (Ne.symm h₃.2), hitinerary]
    simp [Table.get?_insert_self, hstill, hbelongs, Value.identical]

end Making

section Attaching

variable {registry : Registry TravelWorld} {rule : Rule TravelWorld} {add create attach : ActionId}
  {event poll : Var}

/-- A rule that attaches the poll that was created to the event that was added. -/
structure AttachesPolls (registry : Registry TravelWorld) (rule : Rule TravelWorld)
    (add create attach : ActionId) (event poll : Var) : Prop where
  listens : registry.action "ItineraryPlanner" "addEvent" = .ok add
  follows : registry.action "Polling" "create" = .ok create
  invokes : registry.action "ItineraryPlanner" "attachPollToEvent" = .ok attach
  whenPatterns : rule.clauses.whenPatterns =
    [withOutputs (.of add) [("event", event)], withOutputs (.of create) [("poll", poll)]]
  whereClause : rule.clauses.whereClause = none
  thenPatterns : rule.clauses.thenPatterns =
    [withInputs (.of attach) [("event", event), ("poll", poll)]]
  distinct : poll ≠ event

theorem attachesPolls_of_builds (hbuilds : attachPollToEvent.Builds registry rule) :
    ∃ add create attach event poll, AttachesPolls registry rule add create attach event poll := by
  refine hbuilds.elim_two rfl (by decide) fun event poll hne => ?_
  refine ensures_actionPattern fun add hadd => ensures_actionPattern fun create hcreate => ?_
  refine ensures_actionPattern fun attach hattach => .pure ?_
  intro rule hclauses
  exact ⟨add, create, attach, event, poll, hadd, hcreate, hattach, by rw [hclauses],
    by rw [hclauses], by rw [hclauses], hne⟩

private theorem unify_output (action : ActionId) (field : String) (v : Var) (input : Payload)
    (value : Value) (hfield : field ≠ "error") :
    (withOutputs (.of action) [(field, v)]).unify? action input (.single field value) =
      some [(v, value)] := by
  simp [Pattern.unify?, withOutputs, Pattern.withOutput, Pattern.of, Table.insert,
    OutcomeFilter.admits, Frame.match?, Frame.matchFields, Frame.bind?, Frame.empty, Table.get?,
    Payload.single, hfield]

namespace AttachesPolls

variable {run : Run TravelWorld} {k : Nat} {record : Record} {e p : String}

theorem ignores (h : AttachesPolls registry rule add create attach event poll) (k : Nat)
    {action : ActionId} (hadd : action ≠ add) (hcreate : action ≠ create) :
    run.offered action record k rule = ([], run.joinState k rule) :=
  Run.offered_of_neither k h.whenPatterns (if_pos (Ne.symm hadd)) (if_pos (Ne.symm hcreate))

theorem waits (h : AttachesPolls registry rule add create attach event poll) (hne : add ≠ create)
    (hstate : run.joinState k rule = ⟨[[], []]⟩)
    (houtput : record.output = .single "event" (.string e)) :
    run.offered add record k rule =
      ([], ⟨[[⟨record.seq, [(event, .string e)]⟩], []]⟩) := by
  refine Run.offered_of_first hstate h.whenPatterns ?_ (if_pos (Ne.symm hne))
  rw [houtput]
  exact unify_output add "event" event record.input (.string e) (by decide)

theorem fires (h : AttachesPolls registry rule add create attach event poll) (hne : add ≠ create)
    {seq : Int} (hstate : run.joinState k rule = ⟨[[⟨seq, [(event, .string e)]⟩], []]⟩)
    (hseq : seq ≠ record.seq) (houtput : record.output = .single "poll" (.string p)) :
    ∃ g, (run.offered create record k rule).1.map Joined.frame = [g] ∧
      (∀ world, refine rule [g] world = (.frames [g], world)) ∧
      rule.invocations g = [(attach, attachmentOf e p)] := by
  have hunify : (withOutputs (.of create) [("poll", poll)]).unify? create record.input
      record.output = some [(poll, .string p)] := by
    rw [houtput]
    exact unify_output create "poll" poll record.input (.string p) (by decide)
  have hmerge : Frame.merge? [(poll, .string p)] [(event, .string e)] =
      some (Table.insert [(poll, .string p)] event (.string e)) := by
    simp [Frame.merge?, Frame.bindAll?, Frame.bind?, Table.get?, h.distinct]
  refine ⟨_, Run.offered_of_second hstate hseq h.whenPatterns (if_pos hne) hunify hmerge,
    fun world => refine_of_no_clause _ _ (by rw [h.whereClause]; rfl), ?_⟩
  refine invocations_withInputs h.thenPatterns (.cons ⟨rfl, ?_⟩ (.cons ⟨rfl, ?_⟩ .nil))
  · exact Table.get?_insert_self _ _ _
  · rw [Table.get?_insert, if_neg (Ne.symm h.distinct)]
    simp [Table.get?]

end AttachesPolls

end Attaching

end Travel

end ConceptSync
