import ConceptSync.Proofs.Travel.PollRules
import ConceptSync.Proofs.Travel.Underway

set_option autoImplicit false
set_option relaxedAutoImplicit false

/-!
Runs in which an event is added. Where the trip of its itinerary is there, a poll of the trip's owner
is created and attached to the event before anything is answered; where it is not, there are only
answers.
-/

namespace ConceptSync

namespace Travel

namespace App.IsBuilt

variable {config : AppConfig} {app : App} {action : ActionId} {event : String}
  {world after : TravelWorld}

theorem adds (happ : app.IsBuilt config)
    (hname : app.engine.registry.nameOf action = addEvent.operation) {input output : Payload}
    (hperform : app.engine.registry.perform action input world = (.ok output, after))
    (hok : output.isError = false) :
    ∃ itinerary name cost it, input.text? "itinerary" = some itinerary ∧
      world.state.planner.itineraries.get? itinerary = some it ∧
      output = .single "event" (.string world.nextId) ∧
      after.state = { world.state with planner := {
        itineraries := world.state.planner.itineraries.insert itinerary
          { it with events := it.events ++ [world.nextId] }
        events := world.state.planner.events.insert world.nextId
          ⟨itinerary, name, cost, false, none⟩ } } := by
  have hconcept : ItineraryPlanner.machine.concept State.plannerPart ∈ concepts := by
    simp [concepts]
  have hop : ((Operation.action "addEvent").takes ["name", "cost", "itinerary"]).gives ["event"] ∈
      ItineraryPlanner.machine.operations := by
    simp [ItineraryPlanner.machine]
  have hplanner := happ.perform_of_machine hconcept hop rfl hname input world
  rw [hperform] at hplanner
  obtain ⟨houtput, rfl⟩ := Prod.mk.inj hplanner
  have hgives : output = (ItineraryPlanner.addEvent world.nextId input world.state.planner).1 :=
    Outcome.ok.inj houtput
  obtain ⟨itinerary, name, cost, it, hitinerary, hthere, -, hadded⟩ :=
    ItineraryPlanner.addEvent_ok (hgives ▸ hok)
  refine ⟨itinerary, name, cost, it, hitinerary, hthere, by rw [hgives, hadded], ?_⟩
  exact congrArg (fun ended => State.plannerPart.set world.state ended.2) hadded

theorem proposes_of_added (happ : app.IsBuilt config) (hlegible : Legible world)
    (hname : app.engine.registry.nameOf action = addEvent.operation) {input : Payload}
    {itinerary : String} (hitinerary : input.get? "itinerary" = some (.string itinerary))
    (hperform : app.engine.registry.perform action input world =
      (.ok (.single "event" (.string event)), after)) :
    Proposes after itinerary event ∧ after.state.tripOf? itinerary = world.state.tripOf? itinerary := by
  have hkept := happ.legible_perform hlegible action input
  rw [hperform] at hkept
  obtain ⟨key, name, cost, it, hkey, hthere, houtput, hstate⟩ :=
    happ.adds hname hperform (Payload.isError_single (by decide) _)
  obtain ⟨hread, hblank⟩ := Payload.text?_eq_some.mp hkey
  obtain rfl := Value.string.inj (Option.some.inj (hitinerary.symm.trans hread))
  obtain rfl : event = world.nextId := by simpa [Payload.single] using houtput
  refine ⟨⟨hkept, ⟨hblank, Uuid.not_isAllBlank_text _⟩, ?_, ?_⟩, ?_⟩
  · simp [hstate]
  · simp [hstate]
  · simp [hstate, State.tripOf?, hthere]

private theorem creates_poll (happ : app.IsBuilt config)
    (hname : app.engine.registry.nameOf action = "Polling.create") {trip : Trip}
    (howner : Text.isAllBlank trip.owner = false) (event : String) (world : TravelWorld) :
    ∃ poll after, app.engine.registry.perform action (pollOf event trip) world =
        (.ok (.single "poll" (.string poll)), after) ∧
      Text.isAllBlank poll = false ∧ after.state.planner = world.state.planner := by
  have hconcept : Polling.machine.concept State.pollsPart ∈ concepts := by simp [concepts]
  have hop : ((Operation.action "create").takes ["user", "name"]).gives ["poll"] ∈
      Polling.machine.operations := by
    simp [Polling.machine]
  have huser : (pollOf event trip).text? "user" = some trip.owner :=
    Payload.text?_eq_some.mpr ⟨by simp [pollOf, Table.ofList, Table.get?_insert], howner⟩
  have hnamed : (pollOf event trip).text? "name" = some ("event-" ++ event) := by
    refine Payload.text?_eq_some.mpr ⟨by simp [pollOf, Table.ofList], ?_⟩
    simp [Text.isAllBlank, Text.isBlank]
  have hcreates : Polling.create world.nextId (pollOf event trip) world.state.polls =
      (.single "poll" (.string world.nextId), world.state.polls.insert world.nextId
        ⟨"event-" ++ event, trip.owner, [], [], false⟩) := by
    simp only [Polling.create, huser, hnamed]
  exact ⟨_, _, happ.perform_of_act hconcept hop rfl hname hcreates, Uuid.not_isAllBlank_text _, rfl⟩

theorem completes_create_poll (happ : app.IsBuilt config) :
    app.engine.registry.Completes "Polling.create" := by
  have hconcept : Polling.machine.concept State.pollsPart ∈ concepts := by simp [concepts]
  have hop : ((Operation.action "create").takes ["user", "name"]).gives ["poll"] ∈
      Polling.machine.operations := by
    simp [Polling.machine]
  exact happ.completes_of_machine hconcept hop rfl

theorem completes_attach (happ : app.IsBuilt config) :
    app.engine.registry.Completes "ItineraryPlanner.attachPollToEvent" := by
  have hconcept : ItineraryPlanner.machine.concept State.plannerPart ∈ concepts := by
    simp [concepts]
  have hop : (Operation.action "attachPollToEvent").takes ["event", "poll"] ∈
      ItineraryPlanner.machine.operations := by
    simp [ItineraryPlanner.machine]
  exact happ.completes_of_machine hconcept hop rfl

private theorem attaches_poll (happ : app.IsBuilt config)
    (hname : app.engine.registry.nameOf action = "ItineraryPlanner.attachPollToEvent") {poll : String}
    (hevent : Text.isAllBlank event = false) (hpoll : Text.isAllBlank poll = false) {ev : Event}
    (hstored : world.state.planner.events.get? event = some ev) :
    ∃ after, app.engine.registry.perform action (attachmentOf event poll) world = (.ok [], after) ∧
      after.state.planner.events.get? event = some { ev with poll := some poll } := by
  have hconcept : ItineraryPlanner.machine.concept State.plannerPart ∈ concepts := by
    simp [concepts]
  have hop : (Operation.action "attachPollToEvent").takes ["event", "poll"] ∈
      ItineraryPlanner.machine.operations := by
    simp [ItineraryPlanner.machine]
  have htold : (attachmentOf event poll).text? "event" = some event :=
    Payload.text?_eq_some.mpr ⟨by simp [attachmentOf, Table.ofList, Table.get?_insert], hevent⟩
  have hgiven : (attachmentOf event poll).text? "poll" = some poll :=
    Payload.text?_eq_some.mpr ⟨by simp [attachmentOf, Table.ofList], hpoll⟩
  have hattaches : ItineraryPlanner.attachPollToEvent world.nextId (attachmentOf event poll)
      world.state.planner = ([], { world.state.planner with
        events := world.state.planner.events.insert event { ev with poll := some poll } }) := by
    simp only [ItineraryPlanner.attachPollToEvent, htold, hgiven, hstored]
  exact ⟨_, happ.perform_of_act hconcept hop rfl hname hattaches, Table.get?_insert_self _ _ _⟩

end App.IsBuilt

/-- The rules that give events their polls stand one behind the other, between rules that are wired
as their sources say. -/
structure PollRules (app : App) where
  (before after : List (Rule TravelWorld))
  (making attaching : Rule TravelWorld)
  (add create attach : ActionId)
  added : Pattern
  (event poll : Var)
  rules : app.engine.rules = before ++ making :: attaching :: after
  makes : MakesPolls app.engine.registry making add create added
  attaches : AttachesPolls app.engine.registry attaching add create attach event poll
  wired : Source.createPollForEvent.Wired app.engine.registry making
  wiredBefore : List.Forall₂ (fun s rule => Source.Wired app.engine.registry rule s)
    [.requireUser, .createItineraryForTrip] before
  wiredAfter : List.Forall₂ (fun s rule => Source.Wired app.engine.registry rule s)
    (Source.all.drop 4) after

theorem App.IsBuilt.nonempty_pollRules {config : AppConfig} {app : App}
    (happ : app.IsBuilt config) : Nonempty (PollRules app) := by
  have hsources : List.Forall₂ _ ([Source.requireUser, .createItineraryForTrip] ++
      .createPollForEvent :: .attachPollToEvent :: Source.all.drop 4) app.engine.rules :=
    happ.sources
  obtain ⟨before, making, later, hrules, hbefore, ⟨hknown, hmaking⟩, hlater⟩ :=
    split_of_forall₂ hsources
  obtain _ | ⟨⟨_, hattaching⟩, hafter⟩ := hlater
  have hplanner : ItineraryPlanner.machine.concept State.plannerPart ∈
      Requesting.concept config.requesting :: concepts := by simp [concepts]
  have htrips : TripPlanning.machine.concept State.tripsPart ∈
      Requesting.concept config.requesting :: concepts := by simp [concepts]
  obtain ⟨add, create, added, hmakes⟩ := makesPolls_of_builds
    (fun _ _ hq => happ.call_of_concept hplanner hq) (fun _ _ hq => happ.call_of_concept htrips hq)
    hmaking
  obtain ⟨add', create', attach, event, poll, hattaches⟩ := attachesPolls_of_builds hattaching
  obtain rfl := Except.ok.inj (hmakes.listens.symm.trans hattaches.listens)
  obtain rfl := Except.ok.inj (hmakes.invokes.symm.trans hattaches.follows)
  exact ⟨before, _, making, _, add, create, attach, added, event, poll, hrules, hmakes, hattaches,
    Source.wired_of_builds hknown hmaking, hbefore.imp fun _ _ hs => Source.wired_of_builds hs.1 hs.2,
    hafter.imp fun _ _ hs => Source.wired_of_builds hs.1 hs.2⟩

private theorem concerned_by_event :
    (∀ s ∈ [Source.requireUser, .createItineraryForTrip], addEvent.operation ∉ s.waitsFor) ∧
    ∀ s ∈ Source.all.drop 4, s.serves addEvent.path = true → addEvent.operation ∈ s.waitsFor →
      s.invokes = "Requesting.respond" := by
  decide +kernel

private theorem concerned_by_poll : ∀ s ∈ [Source.requireUser, .createItineraryForTrip,
    .createPollForEvent] ++ Source.all.drop 4, s.serves addEvent.path = true →
      "Polling.create" ∉ s.waitsFor := by
  decide +kernel

private theorem unconcerned_by_attachment :
    ∀ s ∈ Source.all, "ItineraryPlanner.attachPollToEvent" ∉ s.waitsFor := by
  decide +kernel

namespace PollRules

variable {app : App} (polls : PollRules app) {run : Run TravelWorld} {record : Record} {e : String}

theorem nameOf_add : app.engine.registry.nameOf polls.add = addEvent.operation :=
  Registry.nameOf_of_action polls.makes.listens

theorem nameOf_create : app.engine.registry.nameOf polls.create = "Polling.create" :=
  Registry.nameOf_of_action polls.makes.invokes

private theorem nameOf_attach :
    app.engine.registry.nameOf polls.attach = "ItineraryPlanner.attachPollToEvent" :=
  Registry.nameOf_of_action polls.attaches.invokes

private theorem add_ne_create : polls.add ≠ polls.create := fun heq => by
  have hsame := polls.nameOf_add.symm.trans (heq ▸ polls.nameOf_create)
  exact absurd hsame (by decide)

theorem attaching_at : app.engine.rules[polls.before.length + 1]? = some polls.attaching := by
  simp [polls.rules]

private theorem firings_of_event
    (hmade : run.Made (routed app.engine.registry addEvent.path) app.engine)
    (hwaiting : run.joinState (polls.before.length + 1) polls.attaching = ⟨[[], []]⟩)
    (houtput : record.output = .single "event" (.string e)) {f : Frame}
    (hunify : polls.added.unify? polls.add record.input record.output = some f) :
    ∃ below, run.firings polls.add record app.engine.rules = (polls.making, [f]) :: below ∧
      ∀ firing ∈ below, (Work.evaluate firing.1 firing.2 record).LeadsTo app.engine.registry
        ["Requesting.respond"] := by
  have hadm : (routed app.engine.registry addEvent.path).completion polls.add record.input
      record.output := fun hopens => absurd (polls.nameOf_add.symm.trans hopens) (by decide)
  have hrule : app.engine.rules[polls.before.length]? = some polls.making := by
    simp [polls.rules]
  obtain ⟨above, below, hfirings, habove, hbelow⟩ :=
    Run.firings_around (polls.attaching :: polls.after)
      (hmade.offered_of_single hrule polls.makes.whenPatterns hunify) (by simp)
  rw [← polls.rules] at hfirings
  obtain rfl : above = [] := by
    refine List.eq_nil_iff_forall_not_mem.mpr fun firing hfiring => ?_
    obtain ⟨k, hk, _⟩ := habove firing hfiring
    obtain ⟨s, hs, hwired⟩ := exists_source polls.wiredBefore _ (List.mem_of_getElem? hk)
    obtain ⟨_, hwaits, _⟩ :=
      hwired.of_firing hmade hadm (hfirings ▸ List.mem_append_left _ hfiring)
    exact concerned_by_event.1 s hs (polls.nameOf_add ▸ hwaits)
  refine ⟨below, hfirings, fun firing hfiring => ?_⟩
  obtain ⟨k, hk, hsome, hoffered⟩ := hbelow firing hfiring
  cases k with
  | zero =>
    have hattaching : polls.attaching = firing.1 := Option.some.inj hk
    rw [← hattaching, Nat.zero_add, Nat.add_comm,
      polls.attaches.waits polls.add_ne_create hwaiting houtput] at hoffered
    exact absurd hoffered.symm hsome
  | succ k =>
    obtain ⟨s, hs, hwired⟩ := exists_source polls.wiredAfter _ (List.mem_of_getElem? hk)
    obtain ⟨hserves, hwaits, _⟩ := hwired.of_firing hmade hadm
      (hfirings ▸ List.mem_append_right _ (List.mem_cons_of_mem _ hfiring))
    exact hwired.leadsTo (List.mem_singleton.mpr
      (concerned_by_event.2 s hs hserves (polls.nameOf_add ▸ hwaits))) firing.2 record

private theorem firings_of_poll
    (hmade : run.Made (routed app.engine.registry addEvent.path) app.engine) {seq : Int}
    (hwaiting : run.joinState (polls.before.length + 1) polls.attaching =
      ⟨[[⟨seq, [(polls.event, .string e)]⟩], []]⟩) (hseq : seq ≠ record.seq) {poll : String}
    (houtput : record.output = .single "poll" (.string poll)) :
    ∃ g, run.firings polls.create record app.engine.rules = [(polls.attaching, [g])] ∧
      (∀ world, refine polls.attaching [g] world = (.frames [g], world)) ∧
      polls.attaching.invocations g = [(polls.attach, attachmentOf e poll)] := by
  have hadm : (routed app.engine.registry addEvent.path).completion polls.create record.input
      record.output := fun hopens => absurd (polls.nameOf_create.symm.trans hopens) (by decide)
  obtain ⟨g, hfires, hrefine, hinvocations⟩ :=
    polls.attaches.fires polls.add_ne_create hwaiting hseq houtput
  have hrules : app.engine.rules =
      (polls.before ++ [polls.making]) ++ polls.attaching :: polls.after := by
    simp [polls.rules]
  have hlength : polls.before.length + 1 = (polls.before ++ [polls.making]).length := by simp
  obtain ⟨above, below, hfirings, habove, hbelow⟩ :=
    Run.firings_around polls.after (hlength ▸ hfires) (by simp)
  rw [← hrules] at hfirings
  have hnone : ∀ firing ∈ above ++ below, ∀ s ∈ [Source.requireUser, .createItineraryForTrip,
      .createPollForEvent] ++ Source.all.drop 4, ¬ s.Wired app.engine.registry firing.1 := by
    intro firing hfiring s hs hwired
    have hfired : firing ∈ run.firings polls.create record app.engine.rules := by
      rw [hfirings]
      exact List.mem_append.mpr ((List.mem_append.mp hfiring).imp_right (List.mem_cons_of_mem _))
    obtain ⟨hserves, hwaits, _⟩ := hwired.of_firing hmade hadm hfired
    exact concerned_by_poll s hs hserves (polls.nameOf_create ▸ hwaits)
  have hbefore : List.Forall₂ (fun s rule => Source.Wired app.engine.registry rule s)
      [.requireUser, .createItineraryForTrip, .createPollForEvent]
      (polls.before ++ [polls.making]) :=
    List.rel_append polls.wiredBefore (.cons polls.wired .nil)
  obtain rfl : above = [] := by
    refine List.eq_nil_iff_forall_not_mem.mpr fun firing hfiring => ?_
    obtain ⟨k, hk, _⟩ := habove firing hfiring
    obtain ⟨s, hs, hwired⟩ := exists_source hbefore _ (List.mem_of_getElem? hk)
    exact hnone firing (List.mem_append_left _ hfiring) s (List.mem_append_left _ hs) hwired
  obtain rfl : below = [] := by
    refine List.eq_nil_iff_forall_not_mem.mpr fun firing hfiring => ?_
    obtain ⟨k, hk, _⟩ := hbelow firing hfiring
    obtain ⟨s, hs, hwired⟩ := exists_source polls.wiredAfter _ (List.mem_of_getElem? hk)
    exact hnone firing (List.mem_append_right _ hfiring) s (List.mem_append_right _ hs) hwired
  exact ⟨g, hfirings, hrefine, hinvocations⟩

end PollRules

/-- The moment of a request's run at which an event was added and is matched next. -/
structure EventAdded {app : App} (polls : PollRules app) (itinerary event : String) (child : Record)
    (rest : List (Work TravelWorld)) (q : Progress TravelWorld RecordStore) : Prop where
  underway : Underway app addEvent.path ⟨.complete polls.add child :: rest, q⟩
  rest : ∀ w ∈ rest, w.LeadsTo app.engine.registry ["Requesting.respond"]
  unseen : child.id ∉ q.run.seen
  waiting : q.run.joinState (polls.before.length + 1) polls.attaching = ⟨[[], []]⟩
  input : child.input.get? "itinerary" = some (.string itinerary)
  output : child.output = .single "event" (.string event)
  proposes : Proposes q.stage.world itinerary event

/-- The moment at which the poll of an event was created and is matched next. -/
structure PollCreated {app : App} (polls : PollRules app) (event poll : String) (created : Record)
    (rest : List (Work TravelWorld)) (q : Progress TravelWorld RecordStore) : Prop where
  underway : Underway app addEvent.path ⟨.complete polls.create created :: rest, q⟩
  rest : ∀ w ∈ rest, w.LeadsTo app.engine.registry ["Requesting.respond"]
  unseen : created.id ∉ q.run.seen
  waiting : ∃ seq, seq ≠ created.seq ∧
    q.run.joinState (polls.before.length + 1) polls.attaching =
      ⟨[[⟨seq, [(polls.event, .string event)]⟩], []]⟩
  output : created.output = .single "poll" (.string poll)
  named : Text.isAllBlank event = false ∧ Text.isAllBlank poll = false
  there : (q.stage.world.state.planner.events.get? event).isSome = true

/-- What is recorded of the poll of an event: it is created for the owner of the trip, and attached
to the event. -/
structure Polled (event : String) (trip : Trip) (created attached : Record) (poll : String) :
    Prop where
  creates : created.action = "Polling.create"
  asks : created.input = pollOf event trip
  gives : created.output = .single "poll" (.string poll)
  attaches : attached.action = "ItineraryPlanner.attachPollToEvent"
  names : attached.input = attachmentOf event poll
  succeeds : attached.output = []

section Run

variable {config : AppConfig} {app : App} {polls : PollRules app} {itinerary event poll : String}
  {child created : Record} {rest : List (Work TravelWorld)} {q : Progress TravelWorld RecordStore}

private theorem EventAdded.matched (happ : app.IsBuilt config)
    (hdeep : 1 ≤ config.engine.maxDepth) (h : EventAdded polls itinerary event child rest q) :
    ∃ f below p, Loop.Reaches app.engine ⟨.complete polls.add child :: rest, q⟩
        ⟨.evaluate polls.making [f] child :: below, p⟩ ∧
      Underway app addEvent.path ⟨.evaluate polls.making [f] child :: below, p⟩ ∧
      (∀ w ∈ below, w.LeadsTo app.engine.registry ["Requesting.respond"]) ∧
      p.stage = q.stage ∧ p.records = q.records ∧
      p.run.joinState (polls.before.length + 1) polls.attaching =
        ⟨[[⟨child.seq, [(polls.event, .string event)]⟩], []]⟩ ∧
      ∃ left, refine polls.making [f] p.stage.world = (.frames left, p.stage.world) ∧
        left.map polls.making.invocations = (q.stage.world.state.tripOf? itinerary).toList.map
          fun trip => [(polls.create, pollOf event trip)] := by
  obtain ⟨f, hunify, hrefine⟩ := polls.makes.fires child.input itinerary event h.input
  rw [← h.output] at hunify
  obtain ⟨below, hfirings, hbelow⟩ :=
    polls.firings_of_event h.underway.upheld.made h.waiting h.output hunify
  obtain ⟨p, hreach, hunderway, hstage, hrecords, hjoins⟩ :=
    h.underway.matched happ hdeep h.unseen
  rw [hfirings, List.map_cons, List.cons_append] at hreach hunderway
  refine ⟨f, _, p, hreach, hunderway, fun w hw => ?_, hstage, hrecords, ?_, ?_⟩
  · rcases List.mem_append.mp hw with hnew | hold
    · obtain ⟨firing, hfiring, rfl⟩ := List.mem_map.mp hnew
      exact hbelow firing hfiring
    · exact h.rest w hold
  · rw [Run.joinState_congr hjoins, Run.joinState_matched _ child polls.attaching_at,
      polls.attaches.waits polls.add_ne_create h.waiting h.output]
  · rw [hstage]
    exact hrefine _ h.proposes

theorem EventAdded.unpolled (happ : app.IsBuilt config)
    (hdeep : 1 ≤ config.engine.maxDepth) (h : EventAdded polls itinerary event child rest q)
    (htrip : q.stage.world.state.tripOf? itinerary = none) :
    ∃ p, AnswersFrom app addEvent.path ⟨.complete polls.add child :: rest, q⟩ p ∧
      p.records = q.records := by
  obtain ⟨f, below, p, hreach, hunderway, hbelow, -, hrecords, -, left, hrefine, hinvocations⟩ :=
    h.matched happ hdeep
  rw [htrip] at hinvocations
  obtain rfl := List.map_eq_nil_iff.mp hinvocations
  obtain ⟨hdropped, hafter⟩ := hunderway.drops happ hdeep hrefine
  exact ⟨p, ⟨below, hreach.trans hdropped, hafter, hbelow⟩, hrecords⟩

private theorem EventAdded.creates (happ : app.IsBuilt config)
    (h : EventAdded polls itinerary event child rest q)
    (hdepth : child.depth + 1 ≤ config.engine.maxDepth)
    (hnew : ∀ r ∈ q.records, r.action ≠ "Polling.create")
    (hshort : q.records.length < Uuid.supply) {trip : Trip}
    (htrip : q.stage.world.state.tripOf? itinerary = some trip) :
    ∃ created poll below p, Loop.Reaches app.engine ⟨.complete polls.add child :: rest, q⟩
        ⟨.complete polls.create created :: below, p⟩ ∧
      PollCreated polls event poll created below p ∧ p.records = q.records ++ [created] ∧
      created.action = "Polling.create" ∧ created.input = pollOf event trip ∧
      created.depth = child.depth + 1 := by
  have hdeep : 1 ≤ config.engine.maxDepth := by omega
  obtain ⟨f, below, p, hreach, hunderway, hbelow, hstage, hrecords, hwaiting, left, hrefine,
    hinvocations⟩ := h.matched happ hdeep
  rw [htrip] at hinvocations
  obtain ⟨g, rfl, hasks⟩ := List.map_eq_singleton_iff.mp hinvocations
  have hchild : child ∈ p.records := by
    obtain ⟨_, hcourse⟩ := hunderway.course
    exact hcourse.queued (.evaluate polls.making [f] child) (List.mem_cons_self ..)
  rw [← hrecords] at hnew hshort
  obtain ⟨created, p', hmakes, hmade, hcreated⟩ := hunderway.makes happ hdeep hrefine hasks hdepth
    (polls.nameOf_create ▸ hnew) (polls.nameOf_create ▸ happ.completes_create_poll) hshort
  have hperformed := hcreated.performed
  obtain ⟨poll, after, hcreates, hblank, hplanner⟩ := happ.creates_poll polls.nameOf_create
    (h.proposes.legible.owner htrip) event q.stage.world
  rw [hstage, hcreates] at hperformed
  obtain ⟨houtput, rfl⟩ := Prod.mk.inj hperformed
  obtain ⟨ev, hstored, -⟩ := Option.map_eq_some_iff.mp h.proposes.stored
  exact ⟨created, poll, below, p', hreach.trans hmakes,
    { underway := hmade
      rest := hbelow
      unseen := hcreated.unseen
      waiting := ⟨child.seq, Int.ne_of_lt (hcreated.later child hchild),
        (Run.joinState_congr hcreated.joins _ _).trans hwaiting⟩
      output := (Outcome.ok.inj houtput).symm
      named := ⟨h.proposes.named.2, hblank⟩
      there := by simp [hplanner, hstored] },
    hrecords ▸ hcreated.records, hcreated.action.trans polls.nameOf_create, hcreated.input,
    hcreated.depth⟩

private theorem PollCreated.attaches (happ : app.IsBuilt config)
    (h : PollCreated polls event poll created rest q)
    (hdepth : created.depth + 1 ≤ config.engine.maxDepth)
    (hnew : ∀ r ∈ q.records, r.action ≠ "ItineraryPlanner.attachPollToEvent")
    (hshort : q.records.length < Uuid.supply) :
    ∃ attached p, AnswersFrom app addEvent.path ⟨.complete polls.create created :: rest, q⟩ p ∧
      p.records = q.records ++ [attached] ∧
      attached.action = "ItineraryPlanner.attachPollToEvent" ∧
      attached.input = attachmentOf event poll ∧ attached.output = [] ∧
      (p.stage.world.state.planner.events.get? event).bind Event.poll = some poll := by
  have hdeep : 1 ≤ config.engine.maxDepth := by omega
  obtain ⟨seq, hseq, hwaiting⟩ := h.waiting
  obtain ⟨g, hfirings, hkeeps, hattaches⟩ :=
    polls.firings_of_poll h.underway.upheld.made hwaiting hseq h.output
  obtain ⟨p, hreach, hunderway, hstage, hrecords, -⟩ := h.underway.matched happ hdeep h.unseen
  rw [hfirings, List.map_singleton, List.singleton_append] at hreach hunderway
  rw [← hrecords] at hnew hshort
  obtain ⟨attached, p', hmakes, hmade, hattached⟩ := hunderway.makes happ hdeep (hkeeps _) hattaches
    hdepth (polls.nameOf_attach ▸ hnew) (polls.nameOf_attach ▸ happ.completes_attach) hshort
  obtain ⟨ev, hstored⟩ := Option.isSome_iff_exists.mp h.there
  obtain ⟨after, hperform, hattachedTo⟩ :=
    happ.attaches_poll polls.nameOf_attach h.named.1 h.named.2 (hstage ▸ hstored)
  obtain ⟨houtput, rfl⟩ := Prod.mk.inj (hattached.performed.symm.trans hperform)
  obtain ⟨p'', hpasses, hpassed, hstage', hrecords'⟩ :=
    hmade.passes happ hdeep (polls.nameOf_attach ▸ unconcerned_by_attachment)
  refine ⟨attached, p'', ⟨rest, hreach.trans (hmakes.trans hpasses), hpassed, h.rest⟩, ?_,
    hattached.action.trans polls.nameOf_attach, hattached.input, Outcome.ok.inj houtput, ?_⟩
  · rw [hrecords', hattached.records, hrecords]
  · rw [hstage', hattachedTo]
    rfl

theorem EventAdded.polled (happ : app.IsBuilt config)
    (h : EventAdded polls itinerary event child rest q)
    (hdepth : child.depth + 2 ≤ config.engine.maxDepth)
    (hnew : ∀ r ∈ q.records,
      r.action ∉ ["Polling.create", "ItineraryPlanner.attachPollToEvent"])
    (hshort : q.records.length + 1 < Uuid.supply) {trip : Trip}
    (htrip : q.stage.world.state.tripOf? itinerary = some trip) :
    ∃ p created attached poll,
      AnswersFrom app addEvent.path ⟨.complete polls.add child :: rest, q⟩ p ∧
      p.records = q.records ++ [created, attached] ∧
      Polled event trip created attached poll ∧
      (p.stage.world.state.planner.events.get? event).bind Event.poll = some poll := by
  simp only [List.mem_cons, List.not_mem_nil, or_false, not_or] at hnew
  obtain ⟨created, poll, below, p, hreach, hcreated, hrecords, hcreates, hasks, hlevel⟩ :=
    h.creates happ (by omega) (fun r hr => (hnew r hr).1) (by omega) htrip
  obtain ⟨attached, p', hanswers, hrecords', hattaches, hnames, hsucceeds, hstored⟩ :=
    hcreated.attaches happ (by omega) (fun r hr => by
      rcases List.mem_append.mp (hrecords ▸ hr) with hold | hlast
      · exact (hnew r hold).2
      · rw [List.mem_singleton.mp hlast, hcreates]
        decide) (by simpa [hrecords] using hshort)
  exact ⟨p', created, attached, poll, hanswers.of_reaches hreach, by
    rw [hrecords', hrecords, List.append_assoc, List.singleton_append],
    ⟨hcreates, hasks, hcreated.output, hattaches, hnames, hsucceeds⟩, hstored⟩

end Run

end Travel

end ConceptSync
