import ConceptSync.Proofs.Requesting.Expecting
import ConceptSync.Proofs.Travel.Conduct
import ConceptSync.Proofs.Travel.Requests

set_option autoImplicit false
set_option relaxedAutoImplicit false

/-!
The travel rules as a graph over the names of actions: which completions a rule waits for, which
action it invokes and whose route it serves. What a request can lead to is decided on this graph.
-/

namespace ConceptSync

namespace Travel

def Handler.operation (h : Handler) : String := qualifiedName h.concept h.action

namespace Source

/-- The names of the actions whose completions a rule of the source waits for. -/
def waitsFor : Source → List String
  | createItineraryForTrip => ["TripPlanning.create"]
  | createPollForEvent => ["ItineraryPlanner.addEvent"]
  | attachPollToEvent => ["ItineraryPlanner.addEvent", "Polling.create"]
  | createExpenseForApprovedEvent => ["ItineraryPlanner.approveEvent"]
  | answerSuccess h | answerError h => ["Requesting.request", h.operation]
  | requireUser | passOn _ | lookup _ | getTripsByUser | unhandledRequest => ["Requesting.request"]

def invokes : Source → String
  | passOn h => h.operation
  | createItineraryForTrip => "ItineraryPlanner.create"
  | createPollForEvent => "Polling.create"
  | attachPollToEvent => "ItineraryPlanner.attachPollToEvent"
  | createExpenseForApprovedEvent => "CostSplitting.create"
  | requireUser | answerSuccess _ | answerError _ | lookup _ | getTripsByUser
  | unhandledRequest => "Requesting.respond"

def route? : Source → Option String
  | passOn h | answerSuccess h | answerError h => some h.path
  | lookup l => some l.path
  | getTripsByUser => some "/TripPlanning/_getTripsByUser"
  | requireUser | createItineraryForTrip | createPollForEvent | attachPollToEvent
  | createExpenseForApprovedEvent | unhandledRequest => none

/-- A rule is wired as its source says. -/
structure Wired (registry : Registry TravelWorld) (rule : Rule TravelWorld) (s : Source) :
    Prop where
  waitsFor : rule.clauses.whenPatterns.map (fun p => registry.nameOf p.action) = s.waitsFor
  invokes : rule.clauses.thenPatterns.map (fun p => registry.nameOf p.action) = [s.invokes]
  route : ∀ path ∈ s.route?, ∃ p ∈ rule.clauses.whenPatterns,
    registry.nameOf p.action = "Requesting.request" ∧
      ("path", Term.literal (.string path)) ∈ p.input

end Source

variable {registry : Registry TravelWorld} {rule : Rule TravelWorld} {h : Handler}

def Handler.done (h : Handler) (action : ActionId) (vars : List Var) : Pattern :=
  let fields := (h.answers.map Prod.snd).zip vars
  if h.fromOutput then withOutputs (.of action) fields
  else (withInputs (.of action) fields).succeeded

theorem Handler.action_done (h : Handler) (action : ActionId) (vars : List Var) :
    (h.done action vars).action = action := by
  unfold done
  split
  · exact (action_withOutputs _ _).1
  · exact (action_withInputs _ _).1

/-- A rule that answers the requests of a route once something was done: its variables, and its
clauses in terms of them. -/
structure RespondsTo (registry : Registry TravelWorld) (route : String) (rule : Rule TravelWorld)
    (request : Var) (done : Pattern) (fields : List (String × Var)) (opening respond : ActionId) :
    Prop where
  listens : registry.action "Requesting" "request" = .ok opening
  responds : registry.action "Requesting" "respond" = .ok respond
  whenPatterns : rule.clauses.whenPatterns =
    [withOutputs ((Pattern.of opening).withInput "path" (.literal (.string route)))
      [("request", request)], done]
  whereClause : rule.clauses.whereClause = none
  thenPatterns : rule.clauses.thenPatterns =
    [withInputs (.of respond) (("request", request) :: fields)]

theorem respondsTo_answerSuccess (hfields : ("request" :: h.answers.map Prod.snd).Nodup)
    (hbuilds : h.answerSuccess.Builds registry rule) :
    ∃ request vars opening respond action, registry.action h.concept h.action = .ok action ∧
      (request :: vars).Nodup ∧ vars.length = h.answers.length ∧
      RespondsTo registry h.path rule request (h.done action vars)
        ((h.answers.map Prod.fst).zip vars) opening respond := by
  obtain ⟨next, naming, hbuild⟩ := hbuilds
  generalize hclauses : rule.clauses = clauses at hbuild
  revert hclauses
  refine Builder.Ensures.of_fresh (b := clauses) hfields hbuild fun request vars hnodup hlength => ?_
  refine ensures_requestTo fun opening hopening => ensures_actionPattern fun action haction => ?_
  refine ensures_respond fun respond hrespond => .pure fun hclauses => ?_
  refine ⟨request, vars, opening, respond, action, haction, hnodup, by simpa using hlength,
    hopening, hrespond, ?_, ?_, ?_⟩
  · exact congrArg Clauses.whenPatterns hclauses
  · exact congrArg Clauses.whereClause hclauses
  · exact congrArg Clauses.thenPatterns hclauses

theorem respondsTo_answerError (hbuilds : h.answerError.Builds registry rule) :
    ∃ request error opening respond action, registry.action h.concept h.action = .ok action ∧
      error ≠ request ∧
      RespondsTo registry h.path rule request (withOutputs (.of action) [("error", error)])
        [("error", error)] opening respond := by
  refine hbuilds.elim_two rfl (by decide) fun request error hne => ?_
  refine ensures_requestTo fun opening hopening => ensures_actionPattern fun action haction => ?_
  refine ensures_respond fun respond hrespond => .pure ?_
  intro rule hclauses
  exact ⟨request, error, opening, respond, action, haction, hne, hopening, hrespond,
    by rw [hclauses], by rw [hclauses], by rw [hclauses]⟩

namespace RespondsTo

variable {route : String} {request : Var} {done : Pattern} {fields : List (String × Var)}
  {opening respond : ActionId}

private theorem wired (hp : RespondsTo registry route rule request done fields opening respond)
    {s : Source}
    (hwaits : s.waitsFor = ["Requesting.request", registry.nameOf done.action])
    (hinvokes : s.invokes = "Requesting.respond") (hroute : s.route? = some route) :
    s.Wired registry rule where
  waitsFor := by
    rw [hp.whenPatterns, hwaits, List.map_cons, List.map_cons, (action_withOutputs _ _).1]
    change [registry.nameOf opening, _] = _
    rw [Registry.nameOf_of_action hp.listens]
    rfl
  invokes := by
    rw [hp.thenPatterns, hinvokes, List.map_cons, (action_withInputs _ _).1]
    change [registry.nameOf respond] = _
    rw [Registry.nameOf_of_action hp.responds]
    rfl
  route := by
    intro path hpath
    obtain rfl := Option.some.inj (hroute.symm.trans hpath)
    refine ⟨_, by rw [hp.whenPatterns]; exact List.mem_cons_self .., ?_, ?_⟩
    · exact Registry.nameOf_of_action hp.listens
    · exact List.mem_cons_self ..

end RespondsTo

private theorem wired_of_one {s : Source} {p q : Pattern} {concept name concept' name' : String}
    {id id' : ActionId} (hwhen : rule.clauses.whenPatterns = [p])
    (hthen : rule.clauses.thenPatterns = [q]) (hid : registry.action concept name = .ok id)
    (hp : p.action = id) (hid' : registry.action concept' name' = .ok id') (hq : q.action = id')
    (hwaits : s.waitsFor = [qualifiedName concept name])
    (hinvokes : s.invokes = qualifiedName concept' name')
    (hroute : ∀ path ∈ s.route?, qualifiedName concept name = "Requesting.request" ∧
      ("path", Term.literal (.string path)) ∈ p.input) : s.Wired registry rule where
  waitsFor := by
    rw [hwhen, hwaits, List.map_singleton, hp, Registry.nameOf_of_action hid]
  invokes := by
    rw [hthen, hinvokes, List.map_singleton, hq, Registry.nameOf_of_action hid']
  route := by
    intro path hpath
    obtain ⟨hname, hmem⟩ := hroute path hpath
    refine ⟨p, by rw [hwhen]; exact List.mem_cons_self .., ?_, hmem⟩
    rw [hp, Registry.nameOf_of_action hid, hname]

namespace Source

private theorem wired_requireUser (hbuilds : requireUser.definition.Builds registry rule) :
    requireUser.Wired registry rule := by
  refine RuleDefinition.Builds.elim hbuilds ?_
  refine .var fun request => .var fun path => .var fun user => ?_
  refine ensures_actionPattern fun opened hopened => ?_
  refine ensures_respond fun answer hanswer => .pure ?_
  intro rule hclauses
  exact wired_of_one (by rw [hclauses]) (by rw [hclauses]) hopened (action_withOutputs _ _).1
    hanswer rfl rfl rfl nofun

private theorem wired_createItineraryForTrip
    (hbuilds : createItineraryForTrip.definition.Builds registry rule) :
    createItineraryForTrip.Wired registry rule := by
  refine RuleDefinition.Builds.elim hbuilds ?_
  refine .var fun tripId => ensures_actionPattern fun created hcreated => ?_
  refine ensures_actionPattern fun create hcreate => .pure ?_
  intro rule hclauses
  exact wired_of_one (by rw [hclauses]) (by rw [hclauses]) hcreated rfl hcreate rfl rfl rfl nofun

private theorem wired_createPollForEvent
    (hbuilds : createPollForEvent.definition.Builds registry rule) :
    createPollForEvent.Wired registry rule := by
  refine RuleDefinition.Builds.elim hbuilds ?_
  refine .var fun event => .var fun eventDoc => .var fun itinerary => .var fun itineraryDoc => ?_
  refine .var fun tripId => .var fun tripDoc => .var fun pollName => .var fun tripOwner => ?_
  refine ensures_queryOf fun eventById _ => ensures_queryOf fun itineraryById _ => ?_
  refine ensures_queryOf fun tripById _ => ensures_actionPattern fun added hadded => ?_
  refine ensures_actionPattern fun create hcreate => .pure ?_
  intro rule hclauses
  exact wired_of_one (by rw [hclauses]) (by rw [hclauses]) hadded rfl hcreate rfl rfl rfl nofun

private theorem wired_attachPollToEvent
    (hbuilds : attachPollToEvent.definition.Builds registry rule) :
    attachPollToEvent.Wired registry rule := by
  refine RuleDefinition.Builds.elim hbuilds ?_
  refine .var fun event => .var fun poll => ensures_actionPattern fun added hadded => ?_
  refine ensures_actionPattern fun created hcreated => ?_
  refine ensures_actionPattern fun attach hattach => .pure ?_
  intro rule hclauses
  refine ⟨?_, ?_, nofun⟩
  · rw [hclauses]
    change [registry.nameOf added, registry.nameOf created] = _
    rw [Registry.nameOf_of_action hadded, Registry.nameOf_of_action hcreated]
    rfl
  · rw [hclauses]
    exact congrArg ([·]) (Registry.nameOf_of_action hattach)

private theorem wired_createExpenseForApprovedEvent
    (hbuilds : createExpenseForApprovedEvent.definition.Builds registry rule) :
    createExpenseForApprovedEvent.Wired registry rule := by
  refine RuleDefinition.Builds.elim hbuilds ?_
  refine .var fun event => .var fun eventDoc => .var fun cost => ?_
  refine ensures_queryOf fun byId _ => ensures_actionPattern fun approve happrove => ?_
  refine ensures_actionPattern fun create hcreate => .pure ?_
  intro rule hclauses
  exact wired_of_one (by rw [hclauses]) (by rw [hclauses]) happrove rfl hcreate rfl rfl rfl nofun

private theorem wired_passOn (hknown : (passOn h).Known)
    (hbuilds : (passOn h).definition.Builds registry rule) : (passOn h).Wired registry rule := by
  have hgiven : ∀ h ∈ handlers, ("user" :: h.given).Nodup := by decide
  obtain ⟨user, given, request, action, hp⟩ := passesOn_of_builds (hgiven h hknown) hbuilds
  refine wired_of_one hp.whenPatterns hp.thenPatterns hp.listens (action_withInputs _ _).1
    hp.invokes (action_withInputs _ _).1 rfl rfl fun path hpath => ⟨rfl, ?_⟩
  cases hpath
  exact hp.path_mem_input (fields_of_handler h hknown).1

private theorem wired_answerSuccess (hknown : (answerSuccess h).Known)
    (hbuilds : (answerSuccess h).definition.Builds registry rule) :
    (answerSuccess h).Wired registry rule := by
  have hfields : ∀ h ∈ handlers, ("request" :: h.answers.map Prod.snd).Nodup := by decide
  obtain ⟨request, vars, opening, respond, action, haction, _, _, hp⟩ :=
    respondsTo_answerSuccess (hfields h hknown) hbuilds
  refine hp.wired ?_ rfl rfl
  rw [h.action_done, Registry.nameOf_of_action haction]
  rfl

private theorem wired_answerError (hbuilds : (answerError h).definition.Builds registry rule) :
    (answerError h).Wired registry rule := by
  obtain ⟨request, error, opening, respond, action, haction, _, hp⟩ :=
    respondsTo_answerError hbuilds
  refine hp.wired ?_ rfl rfl
  rw [(action_withOutputs _ _).1, show (Pattern.of action).action = action from rfl,
    Registry.nameOf_of_action haction]
  rfl

private theorem wired_lookup {l : Lookup} (hknown : (lookup l).Known)
    (hbuilds : (lookup l).definition.Builds registry rule) : (lookup l).Wired registry rule := by
  have hkey : ∀ l ∈ getTripById :: getParticipantsInTrip :: itineraryLookups ++ costLookups,
      l.key ≠ "path" := by decide
  refine RuleDefinition.Builds.elim hbuilds ?_
  refine .var fun request => .var fun key => .var fun answered => ?_
  refine ensures_queryOf fun query _ => ensures_requestTo fun opened hopened => ?_
  refine ensures_respond fun answer hanswer => .pure ?_
  intro rule hclauses
  refine wired_of_one (by rw [hclauses]) (by rw [hclauses]) hopened rfl hanswer rfl rfl rfl
    fun path hpath => ⟨rfl, ?_⟩
  cases hpath
  exact path_mem_input (hkey l hknown)

private theorem wired_getTripsByUser (hbuilds : getTripsByUser.definition.Builds registry rule) :
    getTripsByUser.Wired registry rule := by
  refine RuleDefinition.Builds.elim hbuilds ?_
  refine .var fun request => .var fun user => .var fun trips => ?_
  refine ensures_queryOf fun query _ => ensures_requestTo fun opened hopened => ?_
  refine ensures_respond fun answer hanswer => .pure ?_
  intro rule hclauses
  refine wired_of_one (by rw [hclauses]) (by rw [hclauses]) hopened rfl hanswer rfl rfl rfl
    fun path hpath => ⟨rfl, ?_⟩
  cases hpath
  exact path_mem_input (by decide)

private theorem wired_unhandledRequest
    (hbuilds : unhandledRequest.definition.Builds registry rule) :
    unhandledRequest.Wired registry rule := by
  refine RuleDefinition.Builds.elim hbuilds ?_
  refine .var fun request => .var fun path => .var fun error => ?_
  refine ensures_queryOf fun query _ => ensures_actionPattern fun opened hopened => ?_
  refine ensures_respond fun answer hanswer => .pure ?_
  intro rule hclauses
  exact wired_of_one (by rw [hclauses]) (by rw [hclauses]) hopened rfl hanswer rfl rfl rfl nofun

/-- Every travel rule is wired as its source says. -/
theorem wired_of_builds {s : Source} (hknown : s.Known)
    (hbuilds : s.definition.Builds registry rule) : s.Wired registry rule := by
  cases s with
  | requireUser => exact wired_requireUser hbuilds
  | createItineraryForTrip => exact wired_createItineraryForTrip hbuilds
  | createPollForEvent => exact wired_createPollForEvent hbuilds
  | attachPollToEvent => exact wired_attachPollToEvent hbuilds
  | createExpenseForApprovedEvent => exact wired_createExpenseForApprovedEvent hbuilds
  | passOn h => exact wired_passOn hknown hbuilds
  | answerSuccess h => exact wired_answerSuccess hknown hbuilds
  | answerError h => exact wired_answerError hbuilds
  | lookup l => exact wired_lookup hknown hbuilds
  | getTripsByUser => exact wired_getTripsByUser hbuilds
  | unhandledRequest => exact wired_unhandledRequest hbuilds

def serves (route : String) (s : Source) : Bool := s.route?.all (· == route)

private theorem Wired.serves_of_filled {s : Source} (hwired : s.Wired registry rule)
    {route : String} (hfilled : ∀ p ∈ rule.clauses.whenPatterns,
      ∃ f, p.Makes (routed registry route).completion f) : s.serves route = true := by
  unfold serves
  cases hroute : s.route? with
  | none => rfl
  | some path =>
    obtain ⟨p, hp, hname, hliteral⟩ := hwired.route path hroute
    obtain ⟨f, action, input, output, hadm, hunify⟩ := hfilled p hp
    obtain ⟨rfl, hfits, _⟩ := Pattern.unify?_sound hunify
    obtain ⟨actual, hactual, hagrees⟩ := hfits _ hliteral
    rw [hadm hname] at hactual
    cases hactual
    exact beq_iff_eq.mpr (Value.string.inj (Value.equals_string_left.mp hagrees)).symm

theorem Wired.mem_waitsFor {s : Source} (hwired : s.Wired registry rule) {p : Pattern}
    (hp : p ∈ rule.clauses.whenPatterns) : registry.nameOf p.action ∈ s.waitsFor :=
  hwired.waitsFor ▸ List.mem_map_of_mem hp

theorem Wired.nameOf_then {s : Source} (hwired : s.Wired registry rule) {p : Pattern}
    (hp : p ∈ rule.clauses.thenPatterns) : registry.nameOf p.action = s.invokes :=
  List.mem_singleton.mp (hwired.invokes ▸ List.mem_map_of_mem hp)

/-- A rule that a completion fires serves the route that all requests of the run are for, and waits
for the completed action. -/
theorem Wired.of_firing {s : Source} {engine : Engine TravelWorld} {run : Run TravelWorld}
    {action : ActionId} {record : Record} {frames : List Frame} {route : String}
    (hmade : run.Made (routed engine.registry route) engine)
    (hadm : (routed engine.registry route).completion action record.input record.output)
    (hfiring : (rule, frames) ∈ run.firings action record engine.rules)
    (hwired : s.Wired engine.registry rule) :
    s.serves route = true ∧ engine.registry.nameOf action ∈ s.waitsFor ∧
      ∃ p ∈ rule.clauses.whenPatterns, ∃ f,
        p.unify? action record.input record.output = some f := by
  obtain ⟨_, ⟨p, hp, f, hunify⟩, hfilled⟩ := hmade.of_firing hadm hfiring
  refine ⟨hwired.serves_of_filled hfilled, ?_, p, hp, f, hunify⟩
  exact (Pattern.unify?_sound hunify).1 ▸ hwired.mem_waitsFor hp

theorem Wired.leadsTo {s : Source} {names : List String} (hwired : s.Wired registry rule)
    (hinvokes : s.invokes ∈ names) (frames : List Frame) (trigger : Record) :
    (Work.evaluate rule frames trigger).LeadsTo registry names :=
  .inr fun _ hp => hwired.nameOf_then hp ▸ hinvokes

private theorem not_waitsFor_respond :
    ∀ s ∈ all, "Requesting.respond" ∉ s.waitsFor := by decide +kernel

end Source

/-- The names of the actions that the wiring between concepts leads to from an action. -/
def consequences : String → List String
  | "TripPlanning.create" => ["ItineraryPlanner.create"]
  | "ItineraryPlanner.addEvent" => ["Polling.create", "ItineraryPlanner.attachPollToEvent"]
  | "Polling.create" => ["ItineraryPlanner.attachPollToEvent"]
  | "ItineraryPlanner.approveEvent" => ["CostSplitting.create"]
  | _ => []

theorem not_mem_consequences : ∀ h ∈ handlers,
    h.operation ∉ "Requesting.respond" :: consequences h.operation ∧
      "Requesting.respond" ∉ consequences h.operation ∧ h.operation ≠ "Requesting.request" := by
  decide +kernel

theorem closed_consequences : ∀ h ∈ handlers, ∀ s ∈ Source.all, s.serves h.path = true →
    (∃ name ∈ s.waitsFor, name ∈ consequences h.operation) →
      s.invokes ∈ consequences h.operation := by
  decide +kernel

theorem responders_of_operation : ∀ h ∈ handlers, ∀ s ∈ Source.all, s.serves h.path = true →
    h.operation ∈ s.waitsFor →
      s = .answerSuccess h ∨ s = .answerError h ∨ s.invokes ∈ consequences h.operation := by
  decide +kernel

theorem invokes_of_request : ∀ h ∈ handlers, ∀ s ∈ Source.all, s.serves h.path = true →
    "Requesting.request" ∈ s.waitsFor → s = .passOn h ∨ s.invokes = "Requesting.respond" := by
  decide +kernel

namespace App.IsBuilt

variable {config : AppConfig} {app : App}

theorem wired (happ : app.IsBuilt config) :
    List.Forall₂ (fun s rule => s.Wired app.engine.registry rule) Source.all app.engine.rules :=
  happ.sources.imp fun _ _ hs => Source.wired_of_builds hs.1 hs.2

private theorem stays (happ : app.IsBuilt config) {route : String} {names : List String}
    (hclosed : ∀ s ∈ Source.all, s.serves route = true → (∃ name ∈ s.waitsFor, name ∈ names) →
      s.invokes ∈ names) : app.engine.Stays (routed app.engine.registry route) names := by
  rintro rule hrule ⟨p, hp, hname⟩ hfilled q hq
  obtain ⟨s, hs, hwired⟩ := exists_source happ.wired rule hrule
  rw [hwired.nameOf_then hq]
  exact hclosed s hs (hwired.serves_of_filled hfilled) ⟨_, hwired.mem_waitsFor hp, hname⟩

theorem settles (happ : app.IsBuilt config) {route : String} {names : List String}
    (hclosed : ∀ s ∈ Source.all, s.serves route = true → (∃ name ∈ s.waitsFor, name ∈ names) →
      s.invokes ∈ names) (hsilent : "Requesting.respond" ∉ names) :
    app.engine.Settles route names where
  before := happ.stays hclosed
  after := by
    refine happ.stays fun s hs hserves ⟨name, hwaits, hname⟩ => List.mem_cons_of_mem _ ?_
    rcases List.mem_cons.mp hname with rfl | hname
    · exact absurd hwaits (Source.not_waitsFor_respond s hs)
    · exact hclosed s hs hserves ⟨name, hwaits, hname⟩
  silent := hsilent

theorem settles_nil (happ : app.IsBuilt config) (route : String) :
    app.engine.Settles route [] :=
  happ.settles (fun _ _ _ hwaits => by simp at hwaits) List.not_mem_nil

end App.IsBuilt

end Travel

end ConceptSync
