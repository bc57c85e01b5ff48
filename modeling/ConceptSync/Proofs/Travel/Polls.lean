import ConceptSync.Proofs.Travel.PollRuns
import ConceptSync.Proofs.Travel.Turns

set_option autoImplicit false
set_option relaxedAutoImplicit false

/-!
Events and their polls. A call that adds an event to the itinerary of a trip comes to one poll of
the trip's owner, which the event has before the call is answered; without the trip the call is
answered as well, and there is no poll.
-/

namespace ConceptSync

namespace Travel

namespace App

variable {config : AppConfig} {app : App} {path : String} {body : Value} {fields : Payload}
  {stage : AppStage} {world : TravelWorld} {itinerary event : String}

/-- In a call, an event is added to an itinerary in some world. -/
def AddsEvent (app : App) (path : String) (body : Value) (stage : AppStage) (world : TravelWorld)
    (itinerary event : String) : Prop :=
  ∃ action input after, .performed action input world ∈ app.activities path body stage ∧
    app.engine.registry.nameOf action = addEvent.operation ∧
    input.get? "itinerary" = some (.string itinerary) ∧
    app.engine.registry.perform action input world =
      (.ok (.single "event" (.string event)), after)

def AnswersEvent (app : App) (path : String) (body : Value) (stage : AppStage) (event : String)
    (made : List Record) : Prop :=
  ∃ report opening added answer later,
    (app.handle path body stage).1 =
      .ok ⟨.requested, .object (Payload.single "event" (.string event)), some report⟩ ∧
    report.records = [opening, added] ++ made ++ answer :: later ∧
    opening.action = "Requesting.request" ∧ added.action = addEvent.operation ∧
    added.output = .single "event" (.string event) ∧ answer.action = "Requesting.respond" ∧
    answer.input.erase "request" = Payload.single "event" (.string event) ∧
    ∀ r ∈ later, r.action = "Requesting.respond"

/-- How a call ends that added an event: where there is no trip, it is answered without a poll; else
one poll is created for the trip's owner and attached to the event, once and before the answer. -/
def PollsEvent (app : App) (path : String) (body : Value) (stage : AppStage) (event : String) :
    Option Trip → Prop
  | none =>
    app.AnswersEvent path body stage event [] ∧
      callsOf app.engine.registry "Polling.create" (app.activities path body stage) = [] ∧
      callsOf app.engine.registry "ItineraryPlanner.attachPollToEvent"
        (app.activities path body stage) = []
  | some trip => ∃ created attached poll,
    app.AnswersEvent path body stage event [created, attached] ∧
      Polled event trip created attached poll ∧
      callsOf app.engine.registry "Polling.create" (app.activities path body stage) =
        [pollOf event trip] ∧
      callsOf app.engine.registry "ItineraryPlanner.attachPollToEvent"
        (app.activities path body stage) = [attachmentOf event poll] ∧
      ((app.handle path body stage).2.world.state.planner.events.get? event).bind Event.poll =
        some poll

section Served

variable {opened : AppStage} {e : OpenRequest} {others : List OpenRequest} {root child : Record}
  {l : Loop TravelWorld RecordStore} {last : Rule TravelWorld} {f : Frame} {passed : Payload}
  {action : ActionId} {rest : List (Work TravelWorld)} {q p : Progress TravelWorld RecordStore}

private theorem nothing_waits (happ : app.IsBuilt config) (polls : PollRules app)
    (hserves : Run.Serves app.engine app.gateway.requestAction opened passed e others root l last f)
    {input : Payload} (hhandled : Handled app addEvent input root l action child rest q) :
    q.run.joinState (polls.before.length + 1) polls.attaching = ⟨[[], []]⟩ := by
  have hopening : app.engine.registry.nameOf app.gateway.requestAction = "Requesting.request" :=
    Registry.nameOf_of_action happ.request
  have hjoins : l.progress.run.joins = [] := by rw [hserves.opened.run]; rfl
  rw [Run.joinState_congr hhandled.joins, Run.joinState_matched _ root polls.attaching_at,
    polls.attaches.ignores _ (fun heq => absurd (hopening.symm.trans (heq ▸ polls.nameOf_add))
      (by decide)) (fun heq => absurd (hopening.symm.trans (heq ▸ polls.nameOf_create)) (by decide)),
    Run.joinState_of_no_joins hjoins _ polls.attaches.whenPatterns]

private theorem eventAdded_of_served (happ : app.IsBuilt config) (hreach : app.Reachable stage)
    (hdeep : 1 ≤ config.engine.maxDepth)
    (hpath : config.requesting.stripBase path = addEvent.path) (polls : PollRules app)
    (hserved : app.ServesCall path fields stage opened e others root l last f)
    (hhandled : Handled app addEvent passed root l polls.add child rest q)
    (hcalled : .performed polls.add passed world ∈ l.activities app.engine)
    (hitinerary : passed.get? "itinerary" = some (.string itinerary))
    (houtput : child.output = .single "event" (.string event))
    (hperform : app.engine.registry.perform polls.add passed world =
      (.ok child.output, q.stage.world)) :
    EventAdded polls itinerary event child rest q ∧
      q.stage.world.state.tripOf? itinerary = world.state.tripOf? itinerary := by
  have hlegible : Legible world := by
    have hopened := happ.legible_perform
      ((hreach.legible happ).rests hserved.lookedUp.state) app.gateway.requestAction
      (Gateway.requestInput (app.gateway.config.stripBase path) fields
        (verifiedUser? (.object fields) stage))
    rw [show app.engine.registry.perform _ _ opened.world = _ from
      hserved.serves.opened.performed] at hopened
    refine hserved.course.kept_before (P := Legible) (fun rule hrule frames world hworld => ?_)
      (fun action input world _ hworld => happ.legible_perform hworld action input) hopened _ hcalled
    rwa [(happ.answering hdeep).world_refine hrule frames world]
  obtain ⟨hproposes, htrip⟩ := happ.proposes_of_added hlegible polls.nameOf_add hitinerary
    (hperform.trans (by rw [houtput]))
  have hstripped : app.gateway.config.stripBase path = addEvent.path := happ.settings ▸ hpath
  exact ⟨{
    underway := hhandled.underway happ hdeep hserved.course hserved.serves
      (by simp [Gateway.requestInput, Table.get?_insert, hstripped])
    rest := hhandled.rest
    unseen := hhandled.unseen
    waiting := nothing_waits happ polls hserved.serves hhandled
    input := hhandled.input ▸ hitinerary
    output := houtput
    proposes := hproposes }, htrip⟩

private theorem answersEvent_of_served (happ : app.IsBuilt config)
    (hdeep : 2 ≤ config.engine.maxDepth)
    (hpath : config.requesting.stripBase path = addEvent.path)
    (hserved : app.ServesCall path fields stage opened e others root l last f)
    (hhandled : Handled app addEvent passed root l action child rest q)
    (houtput : child.output = .single "event" (.string event))
    (hanswers : AnswersFrom app addEvent.path ⟨.complete action child :: rest, q⟩ p)
    {made : List Record} (hrecords : p.records = q.records ++ made)
    (hmade : ∀ r ∈ made, r.action ≠ "Requesting.respond") :
    app.AnswersEvent path (.object fields) stage event made ∧
      (app.handle path (.object fields) stage).2.world.state = p.stage.world.state ∧
      ∀ name, app.engine.registry.Completes name →
        name ∉ ["Requesting.request", addEvent.operation, "Requesting.respond"] →
        callsOf app.engine.registry name (app.activities path (.object fields) stage) =
          inputs (completionsOf name made) := by
  have hh : addEvent ∈ handlers := by simp [handlers]
  have hstripped : app.gateway.config.stripBase path = addEvent.path := happ.settings ▸ hpath
  obtain ⟨hstate, hends, hcalls⟩ :=
    hserved.ends happ (Nat.le_of_lt hdeep) hh hhandled hanswers hrecords hmade
  obtain ⟨ended, first, later, more, hdrain, hfirst, hbody, -, -⟩ :=
    happ.drained_of_handled hdeep hh hserved.serves
      (by simp [Gateway.requestInput, Table.get?_insert, hstripped]) hhandled
  rw [hdrain, hfirst] at hends
  obtain ⟨report, hresponse, hreport⟩ := hserved.answered ended first later hdrain hfirst
  have hresponds : ∀ r ∈ first :: later, r.action = "Requesting.respond" := fun r hr =>
    beq_iff_eq.mp (List.mem_filter.mp (hfirst ▸ hr : r ∈ answersOf ended.records)).2
  have hanswered : Table.ofList (addEvent.answered child.input child.output) =
      Payload.single "event" (.string event) := by
    rw [houtput]
    rfl
  rw [hanswered] at hbody
  exact ⟨⟨report, root, child, first, later, hbody ▸ hresponse, hreport.trans hends,
    hserved.serves.opened.action.trans (Registry.nameOf_of_action happ.request), hhandled.name,
    houtput, hresponds first (List.mem_cons_self ..), hbody,
    fun r hr => hresponds r (List.mem_cons_of_mem _ hr)⟩, hstate, hcalls⟩

end Served

/-- In every state that the application can reach, a call that adds an event to an itinerary comes
to one poll of it, attached before the call is answered, if the trip of the itinerary is there, and
to no poll if it is not. -/
theorem pollsEvent (hbuild : build config = .ok app) (hreach : app.Reachable stage)
    (hdeep : 3 ≤ config.engine.maxDepth)
    (hpath : config.requesting.stripBase path = addEvent.path)
    (hadds : app.AddsEvent path body stage world itinerary event) :
    app.PollsEvent path body stage event (world.state.tripOf? itinerary) := by
  have happ := isBuilt hbuild
  obtain ⟨action, input, after, hcalled, hname, hitinerary, hperform⟩ := hadds
  obtain ⟨fields, rfl⟩ := exists_fields hcalled
  obtain ⟨user, opened, e, others, root, l, last, f, child, rest, q, -, hserved, -, hhandled,
    hperformed, hends⟩ := handled_of_performed hbuild hreach (by omega) (by simp [handlers]) hpath
      hcalled hname
  obtain ⟨polls⟩ := happ.nonempty_pollRules
  obtain rfl : polls.add = action :=
    Except.ok.inj (polls.makes.listens.symm.trans hhandled.invokes)
  obtain ⟨houtput, rfl⟩ := Prod.mk.inj (hends.symm.trans hperform)
  obtain ⟨hadded, htrip⟩ := eventAdded_of_served happ hreach (by omega) hpath polls hserved hhandled
    hperformed hitinerary (Outcome.ok.inj houtput) hends
  rw [← htrip]
  cases hthere : q.stage.world.state.tripOf? itinerary with
  | none =>
    obtain ⟨p, hanswers, hrecords⟩ := hadded.unpolled happ (by omega) hthere
    obtain ⟨hanswered, -, hcalls⟩ := answersEvent_of_served happ (by omega) hpath hserved hhandled
      hadded.output hanswers (hrecords.trans (List.append_nil _).symm) nofun
    exact ⟨hanswered, hcalls _ happ.completes_create_poll (by decide),
      hcalls _ happ.completes_attach (by decide)⟩
  | some trip =>
    have hopening : root.action = "Requesting.request" :=
      hserved.serves.opened.action.trans (Registry.nameOf_of_action happ.request)
    obtain ⟨p, created, attached, poll, hanswers, hrecords, hpolled, hstored⟩ :=
      hadded.polled happ
        (by rw [hhandled.childOf.depth, hserved.serves.opened.isRoot.depth]; exact hdeep)
        (by rw [hhandled.records]; simp [hopening, hhandled.name]; decide)
        (by simp [hhandled.records, Uuid.supply]) hthere
    obtain ⟨hanswered, hstate, hcalls⟩ := answersEvent_of_served happ (by omega) hpath hserved
      hhandled hadded.output hanswers hrecords (by simp [hpolled.creates, hpolled.attaches])
    refine ⟨created, attached, poll, hanswered, hpolled, ?_, ?_, hstate ▸ hstored⟩
    · rw [hcalls _ happ.completes_create_poll (by decide)]
      simp [inputs, completionsOf, hpolled.creates, hpolled.attaches, hpolled.asks]
    · rw [hcalls _ happ.completes_attach (by decide)]
      simp [inputs, completionsOf, hpolled.creates, hpolled.attaches, hpolled.names]

private theorem addsEvent_of_succeeds (happ : app.IsBuilt config) {action : ActionId}
    {input : Payload} (hcalled : .performed action input world ∈ app.activities path body stage)
    (hsucceeds : (Activity.performed action input world).succeeds app.engine.registry
      addEvent.operation = true) :
    ∃ itinerary event, input.text? "itinerary" = some itinerary ∧
      app.AddsEvent path body stage world itinerary event := by
  obtain ⟨_, _, _, output, after, heq, hname, hperform, hok⟩ := Activity.succeeds_iff.mp hsucceeds
  obtain ⟨rfl, rfl, rfl⟩ := Activity.performed.inj heq
  obtain ⟨itinerary, _, _, _, hitinerary, _, rfl, _⟩ := happ.adds hname hperform hok
  exact ⟨itinerary, _, hitinerary, action, input, after, hcalled, hname,
    (Payload.text?_eq_some.mp hitinerary).1, hperform⟩

private def itineraryMade? (app : App) (concept : String) (given : Payload) (stage : AppStage) :
    Option (AppStage × Payload) := do
  let created ← app.calledWithin? 20 concept "create" given stage
  let itinerary ← created.world.state.planner.itineraries.keys.head?
  let session ← created.world.state.sessions.keys.head?
  return (created, [("cost", .ofInt 45), ("itinerary", .string itinerary),
    ("name", .string "Museum"), ("session", .string session)])

private def addsToTrip? (concept : String) (given : Payload) (start : AppStage) :
    Option Bool := do
  let app ← (build {}).toOption
  let call ← itineraryMade? app concept given start
  let calls ← app.activitiesWithin? 50 "/api/ItineraryPlanner/addEvent" call.2 call.1
  calls.findSome? fun
    | .performed action input world => do
      guard ((Activity.performed action input world).succeeds app.engine.registry
        addEvent.operation)
      let itinerary ← input.text? "itinerary"
      return (world.state.tripOf? itinerary).isSome
    | .refined _ _ _ => none

private theorem exists_added {start : AppStage} (hstart : ∀ app : App, app.Reachable start)
    {concept : String} {given : Payload} (h : addsToTrip? concept given start = some true) :
    ∃ app stage body world itinerary event, build {} = .ok app ∧ app.Reachable stage ∧
      app.AddsEvent "/api/ItineraryPlanner/addEvent" body stage world itinerary event ∧
      (world.state.tripOf? itinerary).isSome = true := by
  unfold addsToTrip? at h
  obtain ⟨app, hbuild, h⟩ := Option.bind_eq_some_iff.mp h
  obtain ⟨⟨stage, fields⟩, hmade, h⟩ := Option.bind_eq_some_iff.mp h
  obtain ⟨calls, hcalls, h⟩ := Option.bind_eq_some_iff.mp h
  obtain ⟨call, hcall, h⟩ := List.exists_of_findSome?_eq_some h
  obtain ⟨created, hcreated, hmade⟩ := Option.bind_eq_some_iff.mp hmade
  obtain ⟨_, -, hmade⟩ := Option.bind_eq_some_iff.mp hmade
  obtain ⟨_, -, hmade⟩ := Option.bind_eq_some_iff.mp hmade
  obtain ⟨rfl, -⟩ := Prod.mk.inj (Option.some.inj hmade)
  cases call with
  | refined _ _ _ => cases h
  | performed action input world =>
    obtain ⟨_, hsucceeds, h⟩ := Option.bind_eq_some_iff.mp h
    obtain ⟨itinerary, hitinerary, h⟩ := Option.bind_eq_some_iff.mp h
    have hbuilt := build_of_toOption hbuild
    obtain ⟨itinerary', event, hread, hadds⟩ := addsEvent_of_succeeds (isBuilt hbuilt)
      (mem_activities_of_within hcalls hcall) (by simpa [guard] using hsucceeds)
    obtain rfl := Option.some.inj (hitinerary.symm.trans hread)
    exact ⟨app, created, _, world, itinerary, event, hbuilt, (hstart app).called hcreated, hadds,
      Option.some.inj h⟩

/-- The first event of a trip gets a poll. -/
theorem pollsEvent_museum :
    ∃ app stage body world itinerary event trip, build {} = .ok app ∧ app.Reachable stage ∧
      app.AddsEvent "/api/ItineraryPlanner/addEvent" body stage world itinerary event ∧
      world.state.tripOf? itinerary = some trip ∧
      app.PollsEvent "/api/ItineraryPlanner/addEvent" body stage event (some trip) := by
  obtain ⟨app, stage, body, world, itinerary, event, hbuild, hreach, hadds, hthere⟩ :=
    exists_added (fun app => .login "alice" (.start 0))
      (show addsToTrip? "TripPlanning" [("name", .string "Rome"), ("owner", .string "alice")] _ =
        some true by decide +kernel)
  obtain ⟨trip, htrip⟩ := Option.isSome_iff_exists.mp hthere
  have hpolls := pollsEvent hbuild hreach (by decide) (by decide) hadds
  exact ⟨app, stage, body, world, itinerary, event, trip, hbuild, hreach, hadds, htrip,
    htrip ▸ hpolls⟩

end App

end Travel

end ConceptSync
