import ConceptSync.Proofs.Travel.Gate
import ConceptSync.Proofs.Travel.Handling

set_option autoImplicit false
set_option relaxedAutoImplicit false

/-!
Calls on the routes of lookups by verified users. The caller is told what the lookup's query finds
for the key of the call at that time, null if it finds nothing, and nothing is changed.
-/

namespace ConceptSync

namespace Travel

def lookups : List Lookup :=
  getTripById :: getParticipantsInTrip :: itineraryLookups ++ costLookups

private theorem lookup_mem_earlier {l : Lookup} :
    Source.lookup l ∈ Source.earlier ↔ l ∈ lookups := by
  have hserved : ∀ l ∈ lookups, Source.lookup l ∈ Source.earlier := by decide +kernel
  exact ⟨fun h => Source.known_of_mem (.lookup l) (List.mem_append_left _ h), hserved l⟩

def Lookup.report? (l : Lookup) : List Payload → Option Value
  | [] => some .null
  | first :: _ => first.get? l.answer

def answered (values : List Value) : List Value := if values.isEmpty then [.null] else values

private theorem Lookup.report?_rows (l : Lookup) (values : List Value) :
    l.report? (values.map (.single l.answer)) = (answered values).head? := by
  cases values with
  | nil => rfl
  | cons v later => simp [report?, answered, Payload.single, Table.get?]

private theorem exists_answered (values : List Value) :
    ∃ v later, answered values = v :: later := by
  cases values with
  | nil => exact ⟨_, _, rfl⟩
  | cons v later => exact ⟨_, _, rfl⟩

private theorem fields_of_lookup : ∀ l ∈ lookups, l.path ∈ exclusions ∧
    l.key ≠ "path" ∧ l.key ≠ "user" ∧ ∀ name ∈ ["request", "status", "error"], l.answer ≠ name := by
  decide

section Rules

variable {registry : Registry TravelWorld} {rule : Rule TravelWorld} {l : Lookup}

/-- A rule that answers requests by a query: its variables, and its clauses in terms of them. -/
structure LooksUp (registry : Registry TravelWorld) (l : Lookup) (rule : Rule TravelWorld)
    (request given found : Var) (source : QueryHandle TravelWorld) (opening respond : ActionId) :
    Prop where
  asks : registry.query l.concept l.query = .ok source
  listens : registry.action "Requesting" "request" = .ok opening
  responds : registry.action "Requesting" "respond" = .ok respond
  distinct : [found, given, request].Nodup
  whenPatterns : rule.clauses.whenPatterns =
    [withOutputs (withInputs ((Pattern.of opening).withInput "path" (.literal (.string l.path)))
      [(l.key, given)]) [("request", request)]]
  whereClause : rule.clauses.whereClause =
    some (Lookup.refine source.call [(l.key, .var given)] [(l.answer, .var found)] found)
  thenPatterns : rule.clauses.thenPatterns =
    [withInputs (.of respond) [("request", request), (l.answer, found)]]

private theorem looksUp_of_builds (hbuilds : l.rule.Builds registry rule) :
    ∃ request given found source opening respond,
      LooksUp registry l rule request given found source opening respond := by
  refine hbuilds.elim_three rfl (by decide) fun request given found hgiven hfound hother => ?_
  refine ensures_queryOf fun source hsource => ensures_requestTo fun opening hopening => ?_
  refine ensures_respond fun respond hrespond => .pure ?_
  intro rule hclauses
  exact ⟨request, given, found, source, opening, respond, hsource, hopening, hrespond,
    by simp [hgiven, hfound, hother], by rw [hclauses], by rw [hclauses], by rw [hclauses]⟩

namespace LooksUp

variable {request given found : Var} {source : QueryHandle TravelWorld}
  {opening respond : ActionId} {input : Payload} {value : Value} {f : Frame} {world : TravelWorld}

private theorem unify (hp : LooksUp registry l rule request given found source opening respond)
    (hkey : l.key ≠ "path") (hpath : input.get? "path" = some (.string l.path))
    (hvalue : input.get? l.key = some value) (id : String) :
    ∃ p f, rule.clauses.whenPatterns = [p] ∧
      p.unify? opening input (.single "request" (.string id)) = some f ∧
      f.get? given = some value ∧ f.get? request = some (.string id) ∧ f.get? found = none := by
  let p := withOutputs (withInputs
    ((Pattern.of opening).withInput "path" (.literal (.string l.path))) [(l.key, given)])
    [("request", request)]
  have hinput : p.input.Perm [(l.key, .var given), ("path", .literal (.string l.path))] := by
    rw [show p.input = _ from (action_withOutputs _ _).2]
    exact Table.perm_insert _ fun hmem => hkey (List.mem_singleton.mp hmem)
  have houtput : p.output.Perm [("request", .var request)] := .refl _
  obtain ⟨hfound, hdistinct⟩ := List.nodup_cons.mp hp.distinct
  obtain ⟨f, hunify, hin, hout, hfree⟩ := Pattern.unify?_of_fields
    (.single "request" (.string id)) hinput houtput rfl hdistinct
    (Template.admits_var given hvalue (Template.admits_literal hpath
      (Value.equals_string_left.mpr rfl) (Template.admits_nil input)))
    (Template.admits_var request rfl (Template.admits_nil _))
  exact ⟨p, f, hp.whenPatterns, hunify, (hin l.key given (by simp)).trans hvalue,
    hout "request" request (by simp), hfree found hfound⟩

private theorem refine_eq (hp : LooksUp registry l rule request given found source opening respond)
    (hgiven : f.get? given = some value) (hfree : f.get? found = none) {values : List Value}
    (hrows : source.call (.single l.key value) world =
      (.ok (values.map (.single l.answer)), world)) :
    refine rule [f] world = (.frames ((answered values).map (f.insert found)), world) := by
  have hbridge := Frame.bridge_rows hgiven hrows hfree
  have hleft : Lookup.refine source.call [(l.key, .var given)] [(l.answer, .var found)] found [f]
      world = (.ok ((answered values).map (f.insert found)), world) := by
    refine (Effect.bind_of_ok hbridge).trans ?_
    cases values with
    | nil => rfl
    | cons v later => exact congrArg (fun left => (Outcome.ok left, world)) (List.append_nil _)
  simp only [refine, hp.whereClause, hleft]

private theorem invocations_eq
    (hp : LooksUp registry l rule request given found source opening respond)
    {id : String} (hrequest : f.get? request = some (.string id)) (v : Value) :
    rule.invocations (f.insert found v) =
      [(respond, Table.ofList [("request", .string id), (l.answer, v)])] := by
  obtain ⟨hfound, _⟩ := List.nodup_cons.mp hp.distinct
  have hne : found ≠ request := fun heq => hfound (heq ▸ by simp)
  refine invocations_withInputs hp.thenPatterns
    (.cons ⟨rfl, ?_⟩ (.cons ⟨rfl, Table.get?_insert_self _ _ _⟩ .nil))
  rw [Table.get?_insert, if_neg hne, hrequest]

end LooksUp

end Rules

section Rows

def Reads {S : Type} (field : String) (ask : Payload → S → List Payload) : Prop :=
  ∀ input s, ∃ values : List Value, ask input s = values.map (.single field)

private theorem exists_map_single {α : Type} (field : String) (document : α → Value)
    (found : List α) :
    ∃ values : List Value,
      found.map (fun a => Payload.single field (document a)) = values.map (.single field) :=
  ⟨found.map document, by rw [List.map_map]; rfl⟩

private theorem TripPlanning.reads_getTripById : Reads "trip" getTripById :=
  fun _ _ => exists_map_single _ _ _

private theorem TripPlanning.reads_getParticipantsInTrip :
    Reads "participants" getParticipantsInTrip :=
  fun _ _ => exists_map_single _ _ _

private theorem ItineraryPlanner.reads_getItineraryByTrip : Reads "itinerary" getItineraryByTrip :=
  fun _ _ => exists_map_single _ _ _

private theorem ItineraryPlanner.reads_getItineraryById : Reads "itinerary" getItineraryById :=
  fun _ _ => exists_map_single _ _ _

private theorem ItineraryPlanner.reads_getEventById : Reads "event" getEventById :=
  fun _ _ => exists_map_single _ _ _

private theorem ItineraryPlanner.reads_eventsWhere (keep : Event → Bool) :
    Reads "events" (eventsWhere keep) := by
  intro input s
  unfold eventsWhere
  split
  · exact ⟨[], rfl⟩
  · exact ⟨[_], rfl⟩

private theorem CostSplitting.reads_getExpensesByItem : Reads "expenses" getExpensesByItem :=
  fun _ _ => ⟨[_], rfl⟩

private theorem CostSplitting.reads_getTotalContributions : Reads "total" getTotalContributions :=
  fun _ _ => exists_map_single _ _ _

namespace App.IsBuilt

variable {config : AppConfig} {app : App}

private theorem reads_of_machine (happ : app.IsBuilt config) {S : Type} {m : Machine S}
    {part : Part State S} (hc : m.concept part ∈ concepts) {query field : String}
    {ask : Payload → S → List Payload} (hquery : m.query? query = some ask)
    (hreads : Reads field ask) {q : QueryHandle TravelWorld}
    (hq : app.engine.registry.query m.name query = .ok q) :
    ∃ rows : Payload → State → List Payload, Reads field rows ∧
      ∀ input world, q.call input world = (.ok (rows input world.state), world) := by
  refine ⟨fun input s => ask input (part.get s), fun input s => hreads input _, fun input w => ?_⟩
  rw [happ.call_of_concept (List.mem_cons_of_mem _ hc) hq]
  change m.ask part query input w = _
  unfold Machine.ask
  rw [hquery]
  rfl

private theorem reads_of_lookup (happ : app.IsBuilt config) {l : Lookup} (hl : l ∈ lookups)
    {q : QueryHandle TravelWorld} (hq : app.engine.registry.query l.concept l.query = .ok q) :
    ∃ rows : Payload → State → List Payload, Reads l.answer rows ∧
      ∀ input world, q.call input world = (.ok (rows input world.state), world) := by
  have htrips : TripPlanning.machine.concept State.tripsPart ∈ concepts := by simp [concepts]
  have hplanner : ItineraryPlanner.machine.concept State.plannerPart ∈ concepts := by
    simp [concepts]
  have hcosts : CostSplitting.machine.concept State.costsPart ∈ concepts := by simp [concepts]
  simp only [lookups, itineraryLookups, costLookups, List.cons_append, List.nil_append,
    List.mem_cons, List.not_mem_nil, or_false] at hl
  rcases hl with rfl | rfl | rfl | rfl | rfl | rfl | rfl | rfl | rfl
  · exact happ.reads_of_machine htrips rfl TripPlanning.reads_getTripById hq
  · exact happ.reads_of_machine htrips rfl TripPlanning.reads_getParticipantsInTrip hq
  · exact happ.reads_of_machine hplanner rfl ItineraryPlanner.reads_getItineraryByTrip hq
  · exact happ.reads_of_machine hplanner rfl ItineraryPlanner.reads_getItineraryById hq
  · exact happ.reads_of_machine hplanner rfl ItineraryPlanner.reads_getEventById hq
  · exact happ.reads_of_machine hplanner rfl (ItineraryPlanner.reads_eventsWhere _) hq
  · exact happ.reads_of_machine hplanner rfl (ItineraryPlanner.reads_eventsWhere _) hq
  · exact happ.reads_of_machine hcosts rfl CostSplitting.reads_getExpensesByItem hq
  · exact happ.reads_of_machine hcosts rfl CostSplitting.reads_getTotalContributions hq

end App.IsBuilt

end Rows

private theorem invokes_of_lookup : ∀ l ∈ lookups, ∀ s ∈ Source.all, s.serves l.path = true →
    "Requesting.request" ∈ s.waitsFor → s.invokes = "Requesting.respond" := by
  decide +kernel

section Served

variable {config : AppConfig} {app : App} {l : Lookup} {opened : AppStage} {input : Payload}
  {e : OpenRequest} {others : List OpenRequest} {root : Record} {last : Rule TravelWorld}
  {f : Frame} {loop : Loop TravelWorld RecordStore}

private theorem App.IsBuilt.leads_of_lookup (happ : app.IsBuilt config) (hl : l ∈ lookups)
    (hserves : Run.Serves app.engine app.gateway.requestAction opened input e others root loop last
      f)
    (hpath : input.get? "path" = some (.string l.path)) :
    ∀ firing ∈ loop.progress.run.firings app.gateway.requestAction root app.engine.rules,
      (Work.evaluate firing.1 firing.2 root).LeadsTo app.engine.registry
        ["Requesting.respond"] := by
  intro firing hfiring
  have hmade : loop.progress.run.Made (routed app.engine.registry l.path) app.engine :=
    Run.made_of_no_joins (by rw [hserves.opened.run]; rfl)
  have hadm : (routed app.engine.registry l.path).completion app.gateway.requestAction root.input
      root.output := fun _ => hserves.opened.input.symm ▸ hpath
  obtain ⟨hrule, -, -⟩ := hmade.of_firing hadm hfiring
  obtain ⟨s, hs, hwired⟩ := exists_source happ.wired _ hrule
  obtain ⟨hroute, hwaits, -⟩ := hwired.of_firing hmade hadm hfiring
  rw [Registry.nameOf_of_action happ.request] at hwaits
  exact hwired.leadsTo (List.mem_singleton.mpr (invokes_of_lookup l hl s hs hroute hwaits)) _ root

private theorem App.IsBuilt.reaches_report (happ : app.IsBuilt config)
    (hdeep : 1 ≤ config.engine.maxDepth) (hl : l ∈ lookups)
    (hserves : Run.Serves app.engine app.gateway.requestAction opened input e others root loop last
      f)
    (hpath : input.get? "path" = some (.string l.path))
    (huser : ∃ user, input.get? "user" = some user ∧ user ≠ .null) {value : Value}
    (hvalue : input.get? l.key = some value) :
    ∃ q, ∃ rows : State → List Payload, ∃ v loop',
      app.engine.registry.query l.concept l.query = .ok q ∧
      (∀ world, q.call (.single l.key value) world = (.ok (rows world.state), world)) ∧
      l.report? (rows loop.progress.stage.world.state) = some v ∧
      Loop.Reaches app.engine (loop.afterMatching app.engine app.gateway.requestAction root) loop' ∧
      loop'.Expecting app.engine app.gateway.requestAction last f root others e l.path []
        (Table.ofList [("request", .string e.id), (l.answer, v)]) [root] := by
  obtain ⟨-, hkey, -, -⟩ := fields_of_lookup l hl
  have hleads := happ.leads_of_lookup hl hserves hpath
  obtain ⟨before, rule, after, hrules, hbuilds, hidle, -⟩ := Source.exists_taking happ.sources
    (lookup_mem_earlier.mpr hl) rfl happ.request hpath huser root.output
  obtain ⟨request, given, found, q, opening, respond, hp⟩ := looksUp_of_builds hbuilds
  obtain rfl : opening = app.gateway.requestAction :=
    Except.ok.inj (hp.listens.symm.trans happ.request)
  obtain ⟨p, g, hpattern, hunify, hgiven, hrequest, hfree⟩ := hp.unify hkey hpath hvalue e.id
  obtain ⟨rows, hreads, hcall⟩ := happ.reads_of_lookup hl hp.asks
  obtain ⟨values, hvalues⟩ := hreads (.single l.key value) loop.progress.stage.world.state
  obtain ⟨v, more, hanswered⟩ := exists_answered values
  have hrefine := hp.refine_eq hgiven hfree
    ((hcall _ loop.progress.stage.world).trans (by rw [hvalues]))
  have hinvocations : ((answered values).map (g.insert found)).flatMap rule.invocations =
      (v :: more).map fun v =>
        (respond, Table.ofList [("request", .string e.id), (l.answer, v)]) := by
    rw [← hanswered]
    simp only [List.flatMap_map, hp.invocations_eq hrequest]
    exact List.map_eq_flatMap.symm
  have hrespond : app.engine.registry.nameOf respond = "Requesting.respond" :=
    Registry.nameOf_of_action hp.responds
  rw [← hserves.opened.input] at hidle hunify
  rw [← hserves.output] at hunify
  have hanswers : ∀ i ∈ (v :: more).map fun v =>
      (respond, Table.ofList [("request", .string e.id), (l.answer, v)]),
      app.engine.registry.nameOf i.1 = "Requesting.respond" :=
    List.forall_mem_map.mpr fun _ _ => hrespond
  obtain ⟨loop', hreach, hexpecting⟩ := hserves.reaches_expecting (happ.answering hdeep) hpath
    hrules hidle hpattern hunify hrefine hinvocations hanswers
    fun firing hfiring _ => hleads firing hfiring
  refine ⟨q, rows (.single l.key value), v, loop', hp.asks, hcall _, ?_, hreach, hexpecting⟩
  rw [hvalues, l.report?_rows, hanswered]
  rfl

private theorem App.IsBuilt.performed_of_lookup (happ : app.IsBuilt config)
    (hdeep : 1 ≤ config.engine.maxDepth) (hl : l ∈ lookups)
    (hserves : Run.Serves app.engine app.gateway.requestAction opened input e others root loop last
      f)
    (hpath : input.get? "path" = some (.string l.path)) :
    ∀ action input world, .performed action input world ∈ loop.activities app.engine →
      app.engine.registry.nameOf action ∈ ["Requesting.respond"] := by
  have hengine := happ.answering hdeep
  obtain ⟨hserving, hroutes⟩ := hserves.reached hengine hpath .refl
  have hqueued : ∀ w ∈ (loop.afterMatching app.engine app.gateway.requestAction root).stack,
      w.LeadsTo app.engine.registry ["Requesting.respond"] :=
    List.forall_mem_map.mpr (happ.leads_of_lookup hl hserves hpath)
  have hleads : (loop.afterMatching app.engine app.gateway.requestAction root).Leads
      (routed app.engine.registry l.path) ["Requesting.respond"] app.engine :=
    ⟨hserving.course, hroutes, hqueued⟩
  intro action input world hcalled
  rw [hserves.opened.turn.2] at hcalled
  exact hleads.performed (hengine.upholds_routed l.path) (happ.settles_nil l.path).after hcalled

end Served

namespace App

variable {config : AppConfig} {app : App} {stage : AppStage} {l : Lookup} {path user : String}
  {fields : Payload} {value : Value}

/-- A call that reports what a lookup finds for a key. The caller is told the answer in the first
row that the query gives on the stage of the call, or null, and nothing else; nothing but the
request and answers to it is performed and recorded, and no concept's state changes. -/
structure Reports (app : App) (l : Lookup) (key : Value) (path : String) (body : Value)
    (stage : AppStage) (response : GatewayResponse) : Prop where
  told : ∃ rows v, (app.query l.concept l.query (.single l.key key) stage).1 = .ok rows ∧
    l.report? rows = some v ∧ response.body = .object (Payload.single l.answer v)
  status : response.status = 200
  records : ∃ report, response.report = some report ∧
    ∀ r ∈ report.records, r.action ∈ ["Requesting.request", "Requesting.respond"]
  calls : ∀ action input world, .performed action input world ∈ app.activities path body stage →
    app.engine.registry.nameOf action ∈ ["Requesting.request", "Requesting.respond"]
  state : (app.handle path body stage).2.world.state = stage.world.state

private theorem get?_requestInput_of_lookup (hl : l ∈ lookups) (fields : Payload) (user : String) :
    (Gateway.requestInput l.path fields (some user)).get? "path" = some (.string l.path) ∧
      (Gateway.requestInput l.path fields (some user)).get? "user" = some (.string user) ∧
      (Gateway.requestInput l.path fields (some user)).get? l.key = fields.get? l.key := by
  obtain ⟨-, hpath, huser, -⟩ := fields_of_lookup l hl
  refine ⟨by simp [Gateway.requestInput, Table.get?_insert], by simp [Gateway.requestInput], ?_⟩
  simp [Gateway.requestInput, Table.get?_insert, hpath.symm, huser.symm]

private theorem status_report (hl : l ∈ lookups) (v : Value) (kind : RouteKind)
    (report : Option Report) :
    (GatewayResponse.mk kind (.object (Payload.single l.answer v)) report).status = 200 := by
  obtain ⟨-, -, -, hanswer⟩ := fields_of_lookup l hl
  have hstatus : l.answer ≠ "status" := hanswer _ (by simp)
  have herror : l.answer ≠ "error" := hanswer _ (by simp)
  simp [GatewayResponse.status, Payload.single, Table.get?, Payload.isError, Table.contains,
    hstatus, herror]

private theorem reports_of_key (hbuild : build config = .ok app) (hreach : app.Reachable stage)
    (hdeep : 1 ≤ config.engine.maxDepth) (hl : l ∈ lookups)
    (hpath : config.requesting.stripBase path = l.path)
    (huser : verifiedUser? (.object fields) stage = some user)
    (hvalue : fields.get? l.key = some value) :
    ∃ response, (app.handle path (.object fields) stage).1 = .ok response ∧
      app.Reports l value path (.object fields) stage response := by
  have happ := isBuilt hbuild
  have hengine := happ.answering hdeep
  obtain ⟨hexcluded, -, -, hanswer⟩ := fields_of_lookup l hl
  rw [← happ.settings] at hpath
  obtain ⟨opened, e, others, root, loop, last, f, hcall⟩ := serves_requested hbuild hreach hdeep
    (happ.isRequested_of_exclusion (hpath ▸ hexcluded)) fields
  have hserves := hcall.serves
  rw [hpath, huser] at hserves
  obtain ⟨hroute, hcaller, hkey⟩ := get?_requestInput_of_lookup hl fields user
  obtain ⟨q, rows, v, loop', hq, hasked, hreport, hreached, hexpecting⟩ :=
    happ.reaches_report hdeep hl hserves hroute ⟨_, hcaller, nofun⟩ (hkey.trans hvalue)
  have hperformed := happ.performed_of_lookup hdeep hl hserves hroute
  obtain ⟨ended, first, later, more, hdrain, hfirst, hinput, hrecords, hmore, -⟩ :=
    hexpecting.drained hengine (happ.settles_nil _)
  have hdrained := (Loop.drain_of_reaches (.head hserves.opened.turn.1 hreached)).trans hdrain
  obtain ⟨report, hresponse, hends⟩ := hcall.answered ended first later hdrained hfirst
  have hbody : first.input.erase "request" = Payload.single l.answer v := by
    rw [hinput, Table.erase_ofList_cons (by simpa using (hanswer "request" (by simp)).symm)]
    rfl
  rw [hbody] at hresponse
  have hkept : opened.world.state = stage.world.state :=
    happ.state_of_resolved (huser ▸ hcall.resolves)
  rw [happ.state_opened hcall, hkept] at hreport
  have hrows : (app.query l.concept l.query (.single l.key value) stage).1 =
      .ok (rows stage.world.state) := by
    unfold App.query Gateway.onWorld
    rw [hq]
    simp only [hasked]
  have hopening := Registry.nameOf_of_action happ.request
  refine ⟨_, hresponse, ⟨_, v, hrows, hreport, rfl⟩, status_report hl v _ _,
    ⟨report, rfl, fun r hr => ?_⟩, fun action input world hcalled => ?_, ?_⟩
  · rw [hends, hrecords] at hr
    rcases List.mem_append.mp hr with hroot | hlater
    · obtain rfl := List.mem_singleton.mp hroot
      exact (hserves.opened.action.trans hopening).symm ▸ List.mem_cons_self ..
    · exact List.mem_cons_of_mem _ (hmore r hlater)
  · rw [hcall.activities] at hcalled
    rcases List.mem_cons.mp hcalled with heq | hlater
    · cases heq
      exact hopening.symm ▸ List.mem_cons_self ..
    · exact List.mem_cons_of_mem _ (hperformed action input world hlater)
  · exact (happ.state_of_answers hdeep hcall hperformed).trans hkept

/-- Whatever the key is, a call on the route of a lookup by a verified user reports what is found
for it, with and without the default base in its path. -/
theorem reports_faithfully (hbuild : build config = .ok app) (hreach : app.Reachable stage)
    (hbase : config.requesting.baseUrl = "/api") (hdeep : 1 ≤ config.engine.maxDepth)
    (hl : l ∈ lookups) (hpath : path = l.path ∨ path = "/api" ++ l.path)
    (huser : verifiedUser? (.object fields) stage = some user)
    (hvalue : fields.get? l.key = some value) :
    ∃ response, (app.handle path (.object fields) stage).1 = .ok response ∧
      app.Reports l value path (.object fields) stage response := by
  refine reports_of_key hbuild hreach hdeep hl ?_ huser hvalue
  obtain ⟨hslash, hbare⟩ := slash_exclusion l.path (fields_of_lookup l hl).1
  rcases hpath with rfl | rfl
  · exact config.requesting.stripBase_of_not_prefix (hbase ▸ hbare)
  · rw [← hbase, config.requesting.stripBase_append hslash]

def namelessTrip (session : String) : Payload :=
  [("session", .string session), ("tripId", .null)]

/-- A key that is there is looked up even if it is null. -/
theorem reports_namelessTrip :
    ∃ app session response, build {} = .ok app ∧ (login "alice" (.start 0)).1 = .ok session ∧
      app.Reachable (login "alice" (.start 0)).2 ∧ getTripById ∈ lookups ∧
      verifiedUser? (.object (namelessTrip session)) (login "alice" (.start 0)).2 = some "alice" ∧
      (namelessTrip session).get? getTripById.key = some .null ∧
      (app.handle "/api/TripPlanning/_getTripById" (.object (namelessTrip session))
        (login "alice" (.start 0)).2).1 = .ok response ∧
      app.Reports getTripById .null "/api/TripPlanning/_getTripById"
        (.object (namelessTrip session)) (login "alice" (.start 0)).2 response := by
  obtain ⟨app, hbuild⟩ := build_default
  have hreach : app.Reachable (login "alice" (.start 0)).2 := .login "alice" (.start 0)
  have huser : verifiedUser? (.object (namelessTrip (Uuid.issue .item 1).text))
      (login "alice" (.start 0)).2 = some "alice" := by
    decide +kernel
  have hl : getTripById ∈ lookups := List.mem_cons_self ..
  have hpath : "/api/TripPlanning/_getTripById" = "/api" ++ getTripById.path := by decide
  obtain ⟨response, hresponse, hreports⟩ :=
    reports_faithfully hbuild hreach rfl (by decide) hl (.inr hpath) huser rfl
  exact ⟨app, _, response, hbuild, rfl, hreach, hl, huser, rfl, hresponse, hreports⟩

end App

end Travel

end ConceptSync
