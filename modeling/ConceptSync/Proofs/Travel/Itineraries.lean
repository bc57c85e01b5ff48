import ConceptSync.Proofs.Engine.Failing
import ConceptSync.Proofs.Engine.Following
import ConceptSync.Proofs.Travel.Answering
import ConceptSync.Proofs.Travel.Planning
import ConceptSync.Proofs.Travel.Wiring

set_option autoImplicit false
set_option relaxedAutoImplicit false

/-!
Itineraries for trips. The wiring leads to itineraries on short chains alone, so no limit of the
cascade ever refuses one; and the rule that gives trips itineraries goes before all others that wait
for the creation of a trip. So when a trip is created in a run, the work on the top of the stack
comes to its itinerary, turn by turn, and when the run ends every trip has one.
-/

namespace ConceptSync

namespace Travel

section Rule

variable {registry : Registry TravelWorld} {rule : Rule TravelWorld}

/-- A rule that asks for an itinerary of each trip that is created. -/
structure GivesItineraries (registry : Registry TravelWorld) (rule : Rule TravelWorld)
    (created create : ActionId) (p : Pattern) : Prop where
  listens : registry.action "TripPlanning" "create" = .ok created
  invokes : registry.action "ItineraryPlanner" "create" = .ok create
  whenPatterns : rule.clauses.whenPatterns = [p]
  whereClause : rule.clauses.whereClause = none
  fires : ∀ input trip, ∃ f, p.unify? created input (.single "tripId" (.string trip)) = some f ∧
    rule.invocations f = [(create, .single "trip" (.string trip))]

private theorem givesItineraries_of_builds (hbuilds : createItineraryForTrip.Builds registry rule) :
    ∃ created create p, GivesItineraries registry rule created create p := by
  refine RuleDefinition.Builds.elim hbuilds (.var fun tripId => ?_)
  refine ensures_actionPattern fun created hcreated => ?_
  refine ensures_actionPattern fun create hcreate => .pure ?_
  intro rule hclauses
  refine ⟨created, create, _, hcreated, hcreate, by rw [hclauses], by rw [hclauses], ?_⟩
  intro input trip
  let p := withOutputs (.of created) [("tripId", tripId)]
  have houtput : p.output.Perm [("tripId", .var tripId)] := .refl _
  obtain ⟨f, hunify, -, hout, -⟩ := Pattern.unify?_of_fields
    (.single "tripId" (.string trip)) (.refl p.input) houtput rfl
    (List.nodup_singleton tripId) (Template.admits_nil input)
    (Template.admits_var tripId rfl (Template.admits_nil _))
  have htrip : f.get? tripId = some (.string trip) := hout "tripId" tripId (by simp)
  refine ⟨f, hunify, ?_⟩
  have hresolve := resolve_withInputs (f := f) (p := .of create) (t := []) rfl
    (.cons (a := ("trip", tripId)) (b := ("trip", .string trip)) ⟨rfl, htrip⟩ .nil)
  simp only [Rule.invocations, hclauses, Frame.resolveAll, hresolve, (action_withInputs _ _).1]
  rfl

end Rule

private def leadsToItineraries : List String := ["Requesting.request", "TripPlanning.create"]

private theorem chains_of_wiring : ∀ s ∈ Source.all, s.invokes ≠ "Requesting.request" ∧
    (s.invokes = "TripPlanning.create" → s.waitsFor = ["Requesting.request"]) ∧
    (s.invokes = "ItineraryPlanner.create" → s.waitsFor ⊆ leadsToItineraries) := by
  decide +kernel

private theorem not_waitsFor_trip : "TripPlanning.create" ∉ Source.requireUser.waitsFor := by
  decide

namespace App.IsBuilt

variable {config : AppConfig} {app : App}

private theorem exists_source_of_links (happ : app.IsBuilt config) {cause effect : String}
    (h : app.engine.Links cause effect) :
    ∃ s ∈ Source.all, cause ∈ s.waitsFor ∧ effect = s.invokes := by
  obtain ⟨rule, hrule, ⟨p, hp, rfl⟩, q, hq, rfl⟩ := h
  obtain ⟨s, hs, hwired⟩ := exists_source happ.wired rule hrule
  exact ⟨s, hs, hwired.mem_waitsFor hp, hwired.nameOf_then hq⟩

private theorem firings_of_creation (happ : app.IsBuilt config) {run : Run TravelWorld}
    (hslotted : run.Slotted app.engine) {action : ActionId} {record : Record} {trip : String}
    (hname : app.engine.registry.nameOf action = "TripPlanning.create")
    (houtput : record.output = .single "tripId" (.string trip)) :
    ∃ rule f create below,
      run.firings action record app.engine.rules = (rule, [f]) :: below ∧
      rule.clauses.whereClause = none ∧
      rule.invocations f = [(create, .single "trip" (.string trip))] ∧
      app.engine.registry.nameOf create = "ItineraryPlanner.create" := by
  have hsources : List.Forall₂ _
      ([Source.requireUser] ++ .createItineraryForTrip :: Source.all.drop 2) app.engine.rules :=
    happ.sources
  obtain ⟨before, rule, after, hrules, hbefore, ⟨_, hbuilds⟩, _⟩ := split_of_forall₂ hsources
  obtain ⟨created, create, p, hgives⟩ := givesItineraries_of_builds hbuilds
  obtain rfl : action = created := happ.eq_of_nameOf (by rw [hname]; decide)
    (hname.trans (Registry.nameOf_of_action hgives.listens).symm)
  obtain ⟨f, hunify, hinvocations⟩ := hgives.fires record.input trip
  rw [← houtput] at hunify
  have hrule : app.engine.rules[before.length]? = some rule := by simp [hrules]
  have hslot : (run.joinState before.length rule).slots.length = 1 := by
    rw [hslotted before.length rule hrule, hgives.whenPatterns]
    rfl
  obtain ⟨above, below, hfirings, habove, _⟩ := Run.firings_around after
    (Run.offered_of_slot hslot hgives.whenPatterns hunify) (by simp)
  rw [← hrules] at hfirings
  obtain rfl : above = [] := by
    refine List.eq_nil_iff_forall_not_mem.mpr fun firing hfiring => ?_
    obtain ⟨k, hk, _⟩ := habove firing hfiring
    obtain ⟨s, hs, hknown, hbuilt⟩ := exists_source hbefore _ (List.mem_of_getElem? hk)
    obtain ⟨_, q, hq, g, hmatches⟩ :=
      Run.pattern_of_firing (hfirings ▸ List.mem_append_left _ hfiring)
    obtain ⟨rfl, _⟩ := Pattern.unify?_sound hmatches
    have hwaits := (Source.wired_of_builds hknown hbuilt).mem_waitsFor hq
    rw [hname, List.mem_singleton.mp hs] at hwaits
    exact not_waitsFor_trip hwaits
  exact ⟨rule, f, create, below, hfirings, hgives.whereClause, hinvocations,
    Registry.nameOf_of_action hgives.invokes⟩

section Chains

variable {ms : List (Matching TravelWorld)} {l : Loop TravelWorld RecordStore} {r : Record}

private theorem isRoot_of_request (happ : app.IsBuilt config)
    (h : Run.Course app.engine False ms l) (hr : r ∈ l.progress.records)
    (hname : r.action = "Requesting.request") : r.IsRoot := by
  refine (h.links r hr).resolve_right ?_
  rintro ⟨_, _, _, hlinks⟩
  obtain ⟨s, hs, _, hinvokes⟩ := happ.exists_source_of_links hlinks
  exact (chains_of_wiring s hs).1 (hinvokes ▸ hname)

private theorem cause_of_creation (happ : app.IsBuilt config) {cause : String}
    (hlinks : app.engine.Links cause "TripPlanning.create") : cause = "Requesting.request" := by
  obtain ⟨s, hs, hwaits, hinvokes⟩ := happ.exists_source_of_links hlinks
  rw [(chains_of_wiring s hs).2.1 hinvokes.symm] at hwaits
  exact List.mem_singleton.mp hwaits

private theorem depth_le_one (happ : app.IsBuilt config) (h : Run.Course app.engine False ms l)
    (hr : r ∈ l.progress.records) (hname : r.action ∈ leadsToItineraries) : r.depth ≤ 1 := by
  rcases List.mem_pair.mp hname with hrequest | hcreation
  · rw [(happ.isRoot_of_request h hr hrequest).depth]
    exact Nat.zero_le 1
  · rcases h.links r hr with hroot | ⟨cause, hcause, hchild, hlinks⟩
    · rw [hroot.depth]
      exact Nat.zero_le 1
    · have hopening := happ.cause_of_creation (hcreation ▸ hlinks)
      rw [hchild.depth, (happ.isRoot_of_request h hcause hopening).depth]

private theorem causes_are_requests (happ : app.IsBuilt config)
    (h : Run.Course app.engine False ms l) (hname : r.action ∈ leadsToItineraries) {a : Record}
    (hcauses : Causes l.progress.records a r) : a.action = "Requesting.request" := by
  have hnone {b c : Record} (hc : c.action = "Requesting.request") :
      ¬Causes l.progress.records b c := by
    intro hearlier
    have hroot := happ.isRoot_of_request h hearlier.right_mem hc
    obtain ⟨_, hlinks, _⟩ := h.links_of_causes hearlier
    obtain ⟨s, hs, _, hinvokes⟩ := happ.exists_source_of_links hlinks
    exact (chains_of_wiring s hs).1 (hinvokes ▸ hc)
  rcases List.mem_pair.mp hname with hrequest | hcreation
  · exact absurd hcauses (hnone hrequest)
  · obtain ⟨cause, hlinks, rfl | hearlier⟩ := h.links_of_causes hcauses
    · exact happ.cause_of_creation (hcreation ▸ hlinks)
    · exact absurd hearlier (hnone (happ.cause_of_creation (hcreation ▸ hlinks)))

private theorem allows_itineraries (happ : app.IsBuilt config) (hdeep : 2 ≤ config.engine.maxDepth)
    (h : Run.Course app.engine False ms l) {rule : Rule TravelWorld} {create : ActionId}
    {input : Payload} {trigger : Record} (hwork : .invoke rule create input trigger ∈ l.stack)
    (hname : app.engine.registry.nameOf create = "ItineraryPlanner.create") :
    refusal app.engine (app.engine.registry.nameOf create) input trigger l.progress.stage.store =
      .ok none := by
  have htrigger := h.queued _ hwork
  have hlinks := h.follows _ hwork
  rw [Work.Follows, hname] at hlinks
  obtain ⟨s, hs, hwaits, hinvokes⟩ := happ.exists_source_of_links hlinks
  have hleads : trigger.action ∈ leadsToItineraries :=
    (chains_of_wiring s hs).2.2 hinvokes.symm hwaits
  have hdepth := happ.depth_le_one h htrigger hleads
  rcases Progress.refusal_cases app.engine h.reachable h.grown htrigger
      (app.engine.registry.nameOf create) input with
    ⟨htoo, _⟩ | ⟨_, _, ⟨a, ha, haction, _⟩, _⟩ | ⟨_, hallowed⟩
  · rw [happ.limits] at htoo
    omega
  · have hearly : a.action ∈ leadsToItineraries := by
      rcases ha with rfl | hcauses
      · exact hleads
      · exact happ.causes_are_requests h hleads hcauses ▸ List.mem_cons_self ..
    rw [haction, hname] at hearly
    exact absurd hearly (by decide)
  · exact hallowed

end Chains

private theorem creates_itinerary (happ : app.IsBuilt config) {create : ActionId}
    (hname : app.engine.registry.nameOf create = "ItineraryPlanner.create") {trip : String}
    (htrip : Text.isAllBlank trip = false) (world : TravelWorld) :
    ∃ output after, app.engine.registry.perform create (.single "trip" (.string trip)) world =
        (.ok output, after) ∧ trip ∈ after.state.planner.planned := by
  have hconcept : ItineraryPlanner.machine.concept State.plannerPart ∈ concepts := by
    simp [concepts]
  have hop : ((Operation.action "create").takes ["trip"]).gives ["itinerary"] ∈
      ItineraryPlanner.machine.operations := by
    simp [ItineraryPlanner.machine]
  have htext : (Payload.single "trip" (.string trip)).text? "trip" = some trip := by
    have hstring : (Payload.single "trip" (.string trip)).string? "trip" = some trip := rfl
    simp [Payload.text?, hstring, htrip]
  exact ⟨_, _, happ.perform_of_machine hconcept hop rfl hname (.single "trip" (.string trip)) world,
    ItineraryPlanner.planned_create htext⟩

end App.IsBuilt

/-- Fewer identifiers were issued than there are. -/
structure InSupply (stage : AppStage) : Prop where
  records : stage.store.latest < Uuid.supply
  items : stage.world.issued < Uuid.supply

def Planned (lacking : String → Prop) (stage : AppStage) : Prop :=
  InSupply stage → Filed stage.world ∧ ∀ trip ∈ stage.world.state.trips.keys,
    trip ∈ stage.world.state.planner.planned ∨ lacking trip

namespace Planned

variable {stage after : AppStage} {lacking lacking' : String → Prop}

theorem start (wall : Int) : Planned lacking (.start wall) :=
  fun _ => ⟨.start wall, nofun⟩

private theorem mono (h : Planned lacking stage)
    (hless : InSupply stage → ∀ trip, lacking trip → lacking' trip) : Planned lacking' stage :=
  fun hsupply => ⟨(h hsupply).1,
    fun trip htrip => ((h hsupply).2 trip htrip).imp_right (hless hsupply trip)⟩

theorem aside (h : Planned lacking stage) (haside : Aside stage.world after.world)
    (hlatest : stage.store.latest ≤ after.store.latest) : Planned lacking after := by
  intro hsupply
  obtain ⟨hfiled, htrips⟩ := h
    ⟨Nat.lt_of_le_of_lt hlatest hsupply.records, Nat.lt_of_le_of_lt haside.issued hsupply.items⟩
  refine ⟨hfiled.aside haside, fun trip htrip => ?_⟩
  rw [haside.planner]
  exact htrips trip (haside.trips ▸ htrip)

private theorem perform {config : AppConfig} {app : App} (happ : app.IsBuilt config)
    (h : Planned lacking stage) {id : ActionId} {input : Payload} {outcome : Outcome Payload}
    (hperform : app.engine.registry.perform id input stage.world = (outcome, after.world))
    (hlatest : stage.store.latest ≤ after.store.latest)
    (hmakes : ∀ trip, Text.isAllBlank trip = false → lacking trip →
      trip ∈ after.world.state.planner.planned) :
    Planned (fun trip => app.engine.registry.nameOf id = "TripPlanning.create" ∧
      outcome = .ok (.single "tripId" (.string trip))) after := by
  intro hsupply
  have hperforms := happ.performs id input stage.world
  rw [hperform] at hperforms
  obtain ⟨hfiled, htrips⟩ := h ⟨Nat.lt_of_le_of_lt hlatest hsupply.records,
    Nat.lt_of_le_of_lt hperforms.issued_le hsupply.items⟩
  refine ⟨hfiled.performs hperforms hsupply.items, fun trip htrip => ?_⟩
  rcases hperforms.trip_cases htrip with hold | hnew
  · rcases htrips trip hold with hplanned | hlacks
    · exact .inl (hperforms.planned_subset hfiled hsupply.items hplanned)
    · exact .inl (hmakes trip (hfiled.named trip hold) hlacks)
  · exact .inr hnew

end Planned

/-- Work that comes to an itinerary for a trip: the trip's creation before it was matched, then the
firing of the rule for it, then its invocation. -/
inductive Due (engine : Engine TravelWorld) (trip : String) (run : Run TravelWorld) :
    Work TravelWorld → Prop
  | matching {action : ActionId} {record : Record} :
      engine.registry.nameOf action = "TripPlanning.create" →
      record.output = .single "tripId" (.string trip) → record.id ∉ run.seen →
      Due engine trip run (.complete action record)
  | refining {rule : Rule TravelWorld} {f : Frame} {create : ActionId} {trigger : Record} :
      rule.clauses.whereClause = none →
      rule.invocations f = [(create, .single "trip" (.string trip))] →
      engine.registry.nameOf create = "ItineraryPlanner.create" →
      Due engine trip run (.evaluate rule [f] trigger)
  | making {rule : Rule TravelWorld} {create : ActionId} {trigger : Record} :
      engine.registry.nameOf create = "ItineraryPlanner.create" →
      Due engine trip run (.invoke rule create (.single "trip" (.string trip)) trigger)

def DueOnTop (engine : Engine TravelWorld) (trip : String) (stack : List (Work TravelWorld))
    (run : Run TravelWorld) : Prop :=
  ∃ work ∈ stack.head?, Due engine trip run work

def EndsPlanned (engine : Engine TravelWorld)
    (ended : Except Halt (List (Work TravelWorld)) × Progress TravelWorld RecordStore) : Prop :=
  Planned (fun trip => ∃ next, ended.1 = .ok next ∧ DueOnTop engine trip next ended.2.run)
    ended.2.stage

section Step

variable {config : AppConfig} {app : App} {ms : List (Matching TravelWorld)}
  {l : Loop TravelWorld RecordStore} {p : Progress TravelWorld RecordStore}

private theorem endsPlanned_complete (happ : app.IsBuilt config)
    (hslotted : p.run.Slotted app.engine) {action : ActionId} {record : Record}
    (h : Planned (Due app.engine · p.run (.complete action record)) p.stage) :
    EndsPlanned app.engine (step app.engine (.complete action record) p) := by
  change Planned _ p.stage
  refine h.mono fun _ trip hdue => ?_
  cases hdue with
  | matching hname houtput hunseen =>
    obtain ⟨rule, f, create, below, hfirings, hwhere, hinvocations, hcreate⟩ :=
      happ.firings_of_creation hslotted hname houtput
    have hnext : (step app.engine (.complete action record) p).1 =
        .ok (.evaluate rule [f] record ::
          below.map fun firing => .evaluate firing.1 firing.2 record) := by
      simp only [step, completeRecord_of_unseen action hunseen, hfirings, List.map_cons]
    exact ⟨_, hnext, _, rfl, .refining hwhere hinvocations hcreate⟩

private theorem endsPlanned_evaluate {engine : Engine TravelWorld} {rule : Rule TravelWorld}
    {frames : List Frame} {trigger : Record}
    (hworld : (refine rule frames p.stage.world).2 = p.stage.world)
    (h : Planned (Due engine · p.run (.evaluate rule frames trigger)) p.stage) :
    EndsPlanned engine (step engine (.evaluate rule frames trigger) p) := by
  have hstage : (step engine (.evaluate rule frames trigger) p).2.stage = p.stage := by
    simp only [step, evaluateFiring]
    rcases hrefine : refine rule frames p.stage.world with ⟨refined, world⟩
    obtain rfl : world = p.stage.world := by rw [hrefine] at hworld; exact hworld
    cases refined with
    | frames left => cases left <;> rfl
    | error e => rfl
    | broken b => rfl
  unfold EndsPlanned
  rw [hstage]
  refine h.mono fun _ trip hdue => ?_
  cases hdue with
  | refining hwhere hinvocations hcreate =>
    obtain ⟨run, -, -, -, hstep⟩ := step_refined
      (refine_of_no_clause [_] p.stage.world (by simp [hwhere])) hinvocations engine trigger
    rw [hstep]
    exact ⟨_, rfl, _, rfl, .making hcreate⟩

private theorem endsPlanned_invoke (happ : app.IsBuilt config) (hdeep : 2 ≤ config.engine.maxDepth)
    (hcourse : Run.Course app.engine False ms l) {rule : Rule TravelWorld} {action : ActionId}
    {input : Payload} {trigger : Record} (hwork : .invoke rule action input trigger ∈ l.stack)
    (h : Planned (Due app.engine · l.progress.run (.invoke rule action input trigger))
      l.progress.stage) :
    EndsPlanned app.engine (step app.engine (.invoke rule action input trigger) l.progress) := by
  have hlatest := (RecordStore.KeptBy.latest l.progress.run.id l.progress.stage.store.latest).step
    app.engine (Nat.le_refl _) (.invoke rule action input trigger)
  have hstore := (RecordStore.KeptBy.reachable l.progress.run.id).step app.engine hcourse.reachable
    (.invoke rule action input trigger)
  have hmakes {outcome : Outcome Payload} {world : TravelWorld}
      (hperform : app.engine.registry.perform action input l.progress.stage.world =
        (outcome, world)) (trip : String) (htrip : Text.isAllBlank trip = false)
      (hdue : Due app.engine trip l.progress.run (.invoke rule action input trigger)) :
      trip ∈ world.state.planner.planned := by
    cases hdue with
    | making hname =>
      obtain ⟨_, _, hcreates, hplanned⟩ :=
        happ.creates_itinerary hname htrip l.progress.stage.world
      obtain ⟨_, rfl⟩ := Prod.mk.inj (hperform.symm.trans hcreates)
      exact hplanned
  have htrigger : trigger ∈ l.progress.records := hcourse.queued _ hwork
  have hdispatched := Progress.dispatched app.engine rule action input hcourse.reachable htrigger
  generalize step app.engine (.invoke rule action input trigger) l.progress = stepped
    at hdispatched hlatest hstore ⊢
  cases hdispatched with
  | refused error hrefused =>
    change Planned _ l.progress.stage
    refine h.mono fun _ trip hdue => ?_
    cases hdue with
    | making hname =>
      cases hrefused.symm.trans (happ.allows_itineraries hdeep hcourse hwork hname)
  | failed failure world error hfailed =>
    refine (h.perform happ hfailed hlatest (hmakes hfailed)).mono fun _ trip hnew => ?_
    cases hnew.2
  | broken b world hbroken =>
    refine (h.perform happ hbroken hlatest (hmakes hbroken)).mono fun _ trip hnew => ?_
    cases hnew.2
  | @kept child q hkept =>
    refine (h.perform happ hkept.performed hlatest (hmakes hkept.performed)).mono
      fun hsupply trip ⟨hname, houtput⟩ => ?_
    have hunseen := hcourse.unseen_of_kept hkept hstore hsupply.records
    exact ⟨_, rfl, _, rfl, .matching hname (Outcome.ok.inj houtput) hunseen⟩

private theorem endsPlanned_step (happ : app.IsBuilt config) (hdeep : 2 ≤ config.engine.maxDepth)
    (hcourse : Run.Course app.engine False ms l) {work : Work TravelWorld}
    {rest : List (Work TravelWorld)} (hstack : l.stack = work :: rest)
    (h : Planned (DueOnTop app.engine · l.stack l.progress.run) l.progress.stage) :
    EndsPlanned app.engine (step app.engine work l.progress) := by
  have hdue : Planned (Due app.engine · l.progress.run work) l.progress.stage := by
    refine h.mono fun _ trip ⟨top, htop, hdue⟩ => ?_
    rw [hstack] at htop
    exact Option.some.inj htop ▸ hdue
  have hwork : work ∈ l.stack := by simp [hstack]
  cases work with
  | complete action record => exact endsPlanned_complete happ hcourse.matched.slotted hdue
  | evaluate rule frames trigger =>
    have hengine := happ.answering (Nat.le_of_lt hdeep)
    exact endsPlanned_evaluate (hengine.world_refine (hcourse.follows _ hwork).1 frames _) hdue
  | invoke rule action input trigger => exact endsPlanned_invoke happ hdeep hcourse hwork hdue

end Step

section Run

variable {config : AppConfig} {app : App} {ms : List (Matching TravelWorld)}
  {l : Loop TravelWorld RecordStore}

private structure Planning (app : App) (l : Loop TravelWorld RecordStore) : Prop where
  course : ∃ ms, Run.Course app.engine False ms l
  uncancelled : l.progress.run.cancel = none
  planned : Planned (DueOnTop app.engine · l.stack l.progress.run) l.progress.stage

private theorem Planning.turn (happ : app.IsBuilt config) (hdeep : 2 ≤ config.engine.maxDepth)
    {l' : Loop TravelWorld RecordStore} (h : Planning app l) (hturn : l.turn app.engine = .inl l') :
    Planning app l' := by
  obtain ⟨ms, hcourse⟩ := h.course
  obtain ⟨work, rest, next, hstack, _, hstep, hstack'⟩ := Loop.turn_cases hturn
  refine ⟨⟨_, hcourse.turn hturn⟩,
    (Loop.continues_of_reaches (.single hturn)).cancel.trans h.uncancelled, ?_⟩
  have hends := endsPlanned_step happ hdeep hcourse hstack h.planned
  rw [hstep] at hends
  refine Planned.mono hends ?_
  rintro _ trip ⟨_, hnext, top, htop, hdue⟩
  obtain rfl := Except.ok.inj hnext
  refine ⟨top, ?_, hdue⟩
  rw [hstack', List.head?_append, Option.mem_def.mp htop]
  rfl

private theorem Planning.ends (happ : app.IsBuilt config) (hdeep : 2 ≤ config.engine.maxDepth)
    {result : Except Halt Unit × Progress TravelWorld RecordStore} (h : Planning app l)
    (hturn : l.turn app.engine = .inr result) : Planned (fun _ => False) result.2.stage := by
  obtain ⟨ms, hcourse⟩ := h.course
  rcases Loop.turn_ends hturn with ⟨_, hstack, rfl⟩ | ⟨_, hcancelled, _⟩ |
    ⟨work, rest, halt, hstack, _, hstep, _⟩
  · refine h.planned.mono ?_
    rintro _ trip ⟨top, htop, _⟩
    rw [hstack] at htop
    cases htop
  · simp [Progress.isCancelled, h.uncancelled] at hcancelled
  · have hends := endsPlanned_step happ hdeep hcourse hstack h.planned
    rw [hstep] at hends
    refine Planned.mono hends ?_
    rintro _ trip ⟨_, hnext, _⟩
    cases hnext

section Outside

variable {stage : AppStage} {action : ActionId} {input : Payload}

private theorem planning_of_opening (happ : app.IsBuilt config) (hstore : stage.store.Reachable)
    (hsettled : stage.store.records = []) (h : Planned (fun _ => False) stage)
    (hopening : Run.opening app.engine action input (Run.start stage none) = some l) :
    Planning app l := by
  have hcourse : Run.Course app.engine False [] ⟨[], Run.start stage none⟩ :=
    .start hstore (by simp [hsettled])
  obtain ⟨root, hopened⟩ := Run.opened hcourse.reachable hopening
  have hlatest : stage.store.latest ≤ l.progress.stage.store.latest := by
    obtain ⟨_, _, _, _, hkeep, _⟩ := Run.opening_cases hopening
    rw [(RecordStore.seq_append (RecordStore.append_of_persist hkeep)).2]
    exact Nat.le_succ _
  have hunseen : root.id ∉ l.progress.run.seen := by
    rw [hopened.run]
    exact List.not_mem_nil
  refine ⟨⟨_, hcourse.invoke action input hopening⟩, congrArg Run.cancel hopened.run, ?_⟩
  refine (h.perform happ hopened.performed hlatest nofun).mono ?_
  rintro _ trip ⟨hname, houtput⟩
  exact ⟨_, by rw [hopened.stack]; rfl, .matching hname (Outcome.ok.inj houtput) hunseen⟩

private theorem planned_of_no_opening (happ : app.IsBuilt config)
    (h : Planned (fun _ => False) stage)
    (hopening : Run.opening app.engine action input (Run.start stage none) = none) :
    Planned (fun _ => False)
      (Run.invoke app.engine action input (Run.start stage none)).2.stage := by
  rw [Run.invoke_of_no_opening hopening]
  by_cases hkind : app.engine.registry.kind? action = some .action
  · rw [if_pos hkind]
    rcases hperform : app.engine.registry.perform action input stage.world with ⟨outcome, world⟩
    have hafter : Planned _ ({ stage with world } : AppStage) :=
      h.perform happ hperform (Nat.le_refl _) nofun
    have hall : Planned (fun _ => False) { stage with world } := by
      refine hafter.mono ?_
      rintro _ trip ⟨_, rfl⟩
      obtain ⟨l, hl⟩ := Run.opening_of_perform (p := Run.start stage none) hkind hperform
      cases hopening.symm.trans hl
    exact hall.aside (hperform ▸ .refl _) (Nat.le_refl _)
  · rw [if_neg hkind]
    exact h.aside (.refl _) (Nat.le_refl _)

theorem planned_invoke (happ : app.IsBuilt config) (hdeep : 2 ≤ config.engine.maxDepth)
    (action : ActionId) (input : Payload) (hstore : stage.store.Reachable)
    (hsettled : stage.store.records = []) (h : Planned (fun _ => False) stage) :
    Planned (fun _ => False) (app.engine.invoke action input stage).2 := by
  have hended : Planned (fun _ => False)
      (Run.invoke app.engine action input (Run.start stage none)).2.stage := by
    cases hopening : Run.opening app.engine action input (Run.start stage none) with
    | none => exact planned_of_no_opening happ h hopening
    | some l =>
      rw [Run.invoke_of_opening hopening]
      exact Loop.drain_of_kept app.engine (I := Planning app)
        (P := fun p => Planned (fun _ => False) p.stage) (fun _ _ => Planning.turn happ hdeep)
        (fun _ _ => Planning.ends happ hdeep) (planning_of_opening happ hstore hsettled h hopening)
  have hworld := app.engine.world_invoke action input stage
  have hforgotten := app.engine.store_invoke action input stage
  exact hended.aside (hworld ▸ .refl _) (by rw [hforgotten]; exact Nat.le_refl _)

end Outside

end Run

end Travel

end ConceptSync
