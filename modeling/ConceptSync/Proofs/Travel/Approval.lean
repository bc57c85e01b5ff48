import ConceptSync.Proofs.Travel.Lookups
import ConceptSync.Proofs.Travel.Turns
import ConceptSync.Proofs.Travel.Underway

set_option autoImplicit false
set_option relaxedAutoImplicit false

/-!
Approvals and expenses. An approved event becomes an expense of its cost, but the planner and the
rule that makes expenses read the word of approval in their own ways: to the planner everything but
`false` is an approval, to the rule nothing but `true`. So they agree where the word is a boolean.
-/

namespace ConceptSync

namespace Travel

def approval? (input : Payload) : Option Bool := (input.get? "approved").bind Value.asBool?

private theorem approval?_eq_some {input : Payload} {b : Bool} :
    approval? input = some b ↔ input.get? "approved" = some (.bool b) := by
  unfold approval?
  cases input.get? "approved" with
  | none => simp
  | some value => cases value <;> simp [Value.asBool?]

def expenseOf (id : String) (event : Event) : Payload :=
  Table.ofList [("item", .string id), ("cost", .ofDouble event.cost)]

private theorem ItineraryPlanner.approveEvent_ok {fresh : String} {input : Payload}
    {s : ItineraryPlanner} (h : (approveEvent fresh input s).1.isError = false) :
    ∃ id event, input.get? "event" = some (.string id) ∧ Text.isAllBlank id = false ∧
      (approveEvent fresh input s).2.events.get? id = some event ∧
      event.approved = (approval? input).getD true := by
  unfold approveEvent at h ⊢
  split at h
  · next itinerary id hitinerary hid =>
    obtain ⟨hevent, hblank⟩ := Payload.text?_eq_some.mp hid
    simp only at h ⊢
    split at h
    · cases h
    · split at h
      · next e hstored => exact ⟨id, _, hevent, hblank, Table.get?_insert_self _ _ _, rfl⟩
      · cases h
  · cases h

section Expenses

variable {registry : Registry TravelWorld} {rule : Rule TravelWorld}

/-- A rule that makes expenses: it listens to approvals by `true` alone, and asks for an expense of
the event's cost as it is stored by then. -/
structure MakesExpenses (registry : Registry TravelWorld) (rule : Rule TravelWorld)
    (approve create : ActionId) (p : Pattern) : Prop where
  listens : registry.action "ItineraryPlanner" "approveEvent" = .ok approve
  invokes : registry.action "CostSplitting" "create" = .ok create
  whenPatterns : rule.clauses.whenPatterns = [p]
  matches_only : ∀ input output f, p.unify? approve input output = some f →
    approval? input = some true
  fires : ∀ input output id, input.get? "event" = some (.string id) →
    approval? input = some true → output.isError = false →
    ∃ f, p.unify? approve input output = some f ∧
      ∀ (world : TravelWorld) (event : Event), Text.isAllBlank id = false →
        world.state.planner.events.get? id = some event →
        ∃ g, refine rule [f] world = (.frames [g], world) ∧
          rule.invocations g = [(create, expenseOf id event)]

private theorem unify_approved (approve : ActionId) (event : Var) {input output : Payload}
    {id : String} (hid : input.get? "event" = some (.string id))
    (happroved : input.get? "approved" = some (.bool true)) (hok : output.isError = false) :
    ∃ f, (((withInputs (.of approve) [("event", event)]).withInput "approved"
        (.literal (.bool true))).succeeded).unify? approve input output = some f ∧
      f.get? event = some (.string id) ∧ ∀ v, v ≠ event → f.get? v = none := by
  let p := ((withInputs (.of approve) [("event", event)]).withInput "approved"
    (.literal (.bool true))).succeeded
  have hperm : p.input.Perm [("approved", .literal (.bool true)), ("event", .var event)] :=
    Table.perm_insert _
      (by simp [Table.keys, withInputs, Pattern.withInput, Pattern.of, Table.insert])
  obtain ⟨f, hunify, hin, -, hfree⟩ := Pattern.unify?_of_fields output hperm (.refl [])
    (by simp [p, Pattern.succeeded, OutcomeFilter.admits, hok]) (List.nodup_singleton event)
    (Template.admits_literal happroved (Value.equals_bool_left.mpr rfl)
      (Template.admits_var event hid (Template.admits_nil input))) (Template.admits_nil output)
  exact ⟨f, hunify, (hin "event" event (by simp)).trans hid,
    fun v hv => hfree v (mt List.mem_singleton.mp hv)⟩

private theorem makesExpenses_of_builds
    (hasks : ∀ q, registry.query "ItineraryPlanner" "_getEventById" = .ok q →
      q.call = ItineraryPlanner.machine.ask State.plannerPart "_getEventById")
    (hbuilds : createExpenseForApprovedEvent.Builds registry rule) :
    ∃ approve create p, MakesExpenses registry rule approve create p := by
  refine hbuilds.elim_three rfl (by decide) fun event document cost hdocument hcost hother => ?_
  refine ensures_queryOf fun q hq => ensures_actionPattern fun approve happrove => ?_
  refine ensures_actionPattern fun create hcreate => .pure ?_
  intro rule hclauses
  refine ⟨approve, create, _, happrove, hcreate, by rw [hclauses], ?_, ?_⟩
  · intro input output f hunify
    obtain ⟨_, hfits, _⟩ := Pattern.unify?_sound hunify
    obtain ⟨actual, hactual, hagrees⟩ := hfits _ (Table.mem_of_get? (Table.get?_insert_self _ _ _))
    obtain rfl := Value.equals_bool_left.mp hagrees
    exact approval?_eq_some.mpr hactual
  · intro input output id hid happroval hok
    obtain ⟨f, hunify, hevent, hfree⟩ :=
      unify_approved approve event hid (approval?_eq_some.mp happroval) hok
    refine ⟨f, hunify, fun world e hblank hstored => ?_⟩
    have hbridge :=
      bridge_getEventById (hasks q hq) hevent (hfree document hdocument) hblank hstored
    have hfound : documentField (f.insert document (e.document id)) document "cost" =
        .ofDouble e.cost := by
      simp [documentField, e.field?_cost_document]
    have hleft : (Frame.bridge q.call [("event", .var event)] [("event", .var document)] [f] >>=
        fun frames => pure (frames.map fun f =>
          Table.insert f cost (documentField f document "cost"))) world =
          (.ok [(f.insert document (e.document id)).insert cost (.ofDouble e.cost)], world) := by
      rw [Effect.bind_of_ok hbridge, List.map_singleton, hfound]
      rfl
    refine ⟨(f.insert document (e.document id)).insert cost (.ofDouble e.cost), ?_, ?_⟩
    · simp only [refine, hclauses, hleft]
    · refine invocations_withInputs (by rw [hclauses])
        (.cons ⟨rfl, ?_⟩ (.cons ⟨rfl, Table.get?_insert_self _ _ _⟩ .nil))
      rw [Table.get?_insert, if_neg hcost, Table.get?_insert, if_neg hdocument, hevent]

end Expenses

private theorem concerned_by_approval :
    (∀ s ∈ Source.all, approveEvent.operation ∈ s.waitsFor →
      s = .createExpenseForApprovedEvent ∨ s.invokes = "Requesting.respond") ∧
    ∀ s ∈ [Source.requireUser, .createItineraryForTrip, .createPollForEvent, .attachPollToEvent],
      approveEvent.operation ∉ s.waitsFor := by
  decide +kernel

private theorem unconcerned_by_expense :
    ∀ s ∈ Source.all, "CostSplitting.create" ∉ s.waitsFor := by
  decide +kernel

namespace App.IsBuilt

variable {config : AppConfig} {app : App}

private theorem makesExpenses (happ : app.IsBuilt config) {rule : Rule TravelWorld}
    (hbuilds : createExpenseForApprovedEvent.Builds app.engine.registry rule) :
    ∃ approve create p, MakesExpenses app.engine.registry rule approve create p := by
  have hconcept : ItineraryPlanner.machine.concept State.plannerPart ∈ concepts := by
    simp [concepts]
  exact makesExpenses_of_builds
    (fun q hq => happ.call_of_concept (List.mem_cons_of_mem _ hconcept) hq) hbuilds

private theorem approves (happ : app.IsBuilt config) {action : ActionId}
    (hname : app.engine.registry.nameOf action = approveEvent.operation) {input output : Payload}
    {world after : TravelWorld}
    (hperform : app.engine.registry.perform action input world = (.ok output, after))
    (hok : output.isError = false) :
    ∃ id event, input.get? "event" = some (.string id) ∧ Text.isAllBlank id = false ∧
      after.state.planner.events.get? id = some event ∧
      event.approved = (approval? input).getD true := by
  have hconcept : ItineraryPlanner.machine.concept State.plannerPart ∈ concepts := by
    simp [concepts]
  have hop : (Operation.action "approveEvent").takes ["event", "approved", "itinerary"] ∈
      ItineraryPlanner.machine.operations := by
    simp [ItineraryPlanner.machine]
  have hplanner := happ.perform_of_machine hconcept hop rfl hname input world
  obtain ⟨houtput, rfl⟩ := Prod.mk.inj (hperform.symm.trans hplanner)
  obtain rfl := Outcome.ok.inj houtput
  exact ItineraryPlanner.approveEvent_ok hok

private theorem creates_expense (happ : app.IsBuilt config) {action : ActionId}
    (hname : app.engine.registry.nameOf action = "CostSplitting.create") (input : Payload)
    (world : TravelWorld) :
    ∃ output after, app.engine.registry.perform action input world = (.ok output, after) ∧
      after.state.planner = world.state.planner := by
  have hconcept : CostSplitting.machine.concept State.costsPart ∈ concepts := by
    simp [concepts]
  have hop : ((Operation.action "create").takes ["item", "cost"]).gives ["expenseId"] ∈
      CostSplitting.machine.operations := by
    simp [CostSplitting.machine]
  exact ⟨_, _, happ.perform_of_machine hconcept hop rfl hname input world, rfl⟩

private theorem completes_expense (happ : app.IsBuilt config) :
    app.engine.registry.Completes "CostSplitting.create" := fun _ input world hname => by
  obtain ⟨output, after, hperform, _⟩ := happ.creates_expense hname input world
  exact ⟨output, after, hperform⟩

end App.IsBuilt

section Run

variable {config : AppConfig} {app : App} {opened : AppStage} {input passed : Payload}
  {e : OpenRequest} {others : List OpenRequest} {root child : Record}
  {l : Loop TravelWorld RecordStore} {last : Rule TravelWorld} {f : Frame} {action : ActionId}
  {rest : List (Work TravelWorld)} {q : Progress TravelWorld RecordStore}

private theorem admits_approval (child : Record)
    (hname : app.engine.registry.nameOf action = approveEvent.operation) :
    (routed app.engine.registry approveEvent.path).completion action child.input child.output :=
  fun hopens => absurd (hname.symm.trans hopens) (by decide)

private theorem answers_of_firing
    (hmade : q.run.Made (routed app.engine.registry approveEvent.path) app.engine)
    (hname : app.engine.registry.nameOf action = approveEvent.operation) {s : Source}
    (hs : s ∈ Source.all) {firing : Rule TravelWorld × List Frame}
    (hwired : s.Wired app.engine.registry firing.1)
    (hfiring : firing ∈ q.run.firings action child app.engine.rules)
    (hother : s ≠ .createExpenseForApprovedEvent) :
    (Work.evaluate firing.1 firing.2 child).LeadsTo app.engine.registry ["Requesting.respond"] := by
  have hadm := admits_approval child hname
  obtain ⟨_, hwaits, _⟩ := hwired.of_firing hmade hadm hfiring
  rcases concerned_by_approval.1 s hs (hname ▸ hwaits) with heq | hinvokes
  · exact absurd heq hother
  · exact hwired.leadsTo (List.mem_singleton.mpr hinvokes) firing.2 child

private theorem firings_of_unconfirmed (happ : app.IsBuilt config)
    (hmade : q.run.Made (routed app.engine.registry approveEvent.path) app.engine)
    (haction : app.engine.registry.action "ItineraryPlanner" "approveEvent" = .ok action)
    (hunconfirmed : approval? child.input ≠ some true) :
    ∀ firing ∈ q.run.firings action child app.engine.rules,
      (Work.evaluate firing.1 firing.2 child).LeadsTo app.engine.registry
        ["Requesting.respond"] := by
  intro firing hfiring
  have hname : app.engine.registry.nameOf action = approveEvent.operation :=
    Registry.nameOf_of_action haction
  have hadm := admits_approval child hname
  obtain ⟨hrule, ⟨p, hp, g, hunify⟩, _⟩ := hmade.of_firing hadm hfiring
  obtain ⟨s, hs, hknown, hbuilds⟩ := exists_source happ.sources _ hrule
  refine answers_of_firing hmade hname hs (Source.wired_of_builds hknown hbuilds) hfiring ?_
  rintro rfl
  obtain ⟨approve, create, p', hmakes⟩ := happ.makesExpenses hbuilds
  rw [hmakes.whenPatterns] at hp
  obtain rfl := List.mem_singleton.mp hp
  obtain rfl : approve = action := Except.ok.inj (hmakes.listens.symm.trans haction)
  exact hunconfirmed (hmakes.matches_only _ _ _ hunify)

private theorem firings_of_confirmed (happ : app.IsBuilt config)
    (hmade : q.run.Made (routed app.engine.registry approveEvent.path) app.engine)
    (haction : app.engine.registry.action "ItineraryPlanner" "approveEvent" = .ok action)
    {id : String} (hid : child.input.get? "event" = some (.string id))
    (hconfirmed : approval? child.input = some true) (hok : child.output.isError = false) :
    ∃ rule g create below, q.run.firings action child app.engine.rules = (rule, [g]) :: below ∧
      app.engine.registry.action "CostSplitting" "create" = .ok create ∧
      (∀ (world : TravelWorld) (event : Event), Text.isAllBlank id = false →
        world.state.planner.events.get? id = some event →
        ∃ g', refine rule [g] world = (.frames [g'], world) ∧
          rule.invocations g' = [(create, expenseOf id event)]) ∧
      ∀ firing ∈ below, (Work.evaluate firing.1 firing.2 child).LeadsTo app.engine.registry
        ["Requesting.respond"] := by
  have hname : app.engine.registry.nameOf action = approveEvent.operation :=
    Registry.nameOf_of_action haction
  have hadm := admits_approval child hname
  have hsources : List.Forall₂ _ ([Source.requireUser, .createItineraryForTrip, .createPollForEvent,
      .attachPollToEvent] ++ .createExpenseForApprovedEvent :: Source.all.drop 5)
      app.engine.rules := happ.sources
  obtain ⟨before, rule, after, hrules, hbefore, ⟨_, hbuilds⟩, hafter⟩ := split_of_forall₂ hsources
  obtain ⟨approve, create, p, hmakes⟩ := happ.makesExpenses hbuilds
  obtain rfl : approve = action := Except.ok.inj (hmakes.listens.symm.trans haction)
  obtain ⟨g, hunify, hexpense⟩ := hmakes.fires _ _ id hid hconfirmed hok
  have hrule : app.engine.rules[before.length]? = some rule := by simp [hrules]
  obtain ⟨above, below, hfirings, habove, hbelow⟩ := Run.firings_around after
    (hmade.offered_of_single hrule hmakes.whenPatterns hunify) (by simp)
  rw [← hrules] at hfirings
  obtain rfl : above = [] := by
    refine List.eq_nil_iff_forall_not_mem.mpr fun firing hfiring => ?_
    obtain ⟨k, hk, _⟩ := habove firing hfiring
    obtain ⟨s, hs, hknown, hbuilt⟩ := exists_source hbefore _ (List.mem_of_getElem? hk)
    obtain ⟨_, hwaits, _⟩ := (Source.wired_of_builds hknown hbuilt).of_firing hmade hadm
      (hfirings ▸ List.mem_append_left _ hfiring)
    exact concerned_by_approval.2 s hs (hname ▸ hwaits)
  refine ⟨rule, g, create, below, hfirings, hmakes.invokes, hexpense, fun firing hfiring => ?_⟩
  obtain ⟨k, hk, _⟩ := hbelow firing hfiring
  obtain ⟨s, hs, hknown, hbuilt⟩ := exists_source hafter _ (List.mem_of_getElem? hk)
  have hothers : Source.createExpenseForApprovedEvent ∉ Source.all.drop 5 := by decide +kernel
  exact answers_of_firing hmade hname (List.mem_of_mem_drop hs)
    (Source.wired_of_builds hknown hbuilt)
    (hfirings ▸ List.mem_append_right _ (List.mem_cons_of_mem _ hfiring))
    fun heq => hothers (heq ▸ hs)

private theorem answersFrom_of_unconfirmed (happ : app.IsBuilt config)
    (hdeep : 1 ≤ config.engine.maxDepth)
    (hunderway : Underway app approveEvent.path ⟨.complete action child :: rest, q⟩)
    (hunseen : child.id ∉ q.run.seen)
    (hrest : ∀ w ∈ rest, w.LeadsTo app.engine.registry ["Requesting.respond"])
    (haction : app.engine.registry.action "ItineraryPlanner" "approveEvent" = .ok action)
    (hunconfirmed : approval? child.input ≠ some true) :
    ∃ p, AnswersFrom app approveEvent.path ⟨.complete action child :: rest, q⟩ p ∧
      p.records = q.records ∧ p.stage = q.stage := by
  obtain ⟨p, hreach, hmatched, hstage, hrecords, -⟩ := hunderway.matched happ hdeep hunseen
  refine ⟨p, ⟨_, hreach, hmatched, fun w hw => ?_⟩, hrecords, hstage⟩
  rcases List.mem_append.mp hw with hnew | hold
  · obtain ⟨firing, hfiring, rfl⟩ := List.mem_map.mp hnew
    exact firings_of_unconfirmed happ hunderway.upheld.made haction hunconfirmed firing hfiring
  · exact hrest w hold

private theorem answersFrom_of_confirmed (happ : app.IsBuilt config)
    (hunderway : Underway app approveEvent.path ⟨.complete action child :: rest, q⟩)
    (hunseen : child.id ∉ q.run.seen)
    (hrest : ∀ w ∈ rest, w.LeadsTo app.engine.registry ["Requesting.respond"])
    (haction : app.engine.registry.action "ItineraryPlanner" "approveEvent" = .ok action)
    (hdepth : child.depth + 1 ≤ config.engine.maxDepth)
    (hnew : ∀ r ∈ q.records, r.action ≠ "CostSplitting.create")
    (hshort : q.records.length < Uuid.supply) {id : String}
    (hid : child.input.get? "event" = some (.string id)) (hblank : Text.isAllBlank id = false)
    {event : Event} (hstored : q.stage.world.state.planner.events.get? id = some event)
    (hconfirmed : approval? child.input = some true) (hok : child.output.isError = false) :
    ∃ p made, AnswersFrom app approveEvent.path ⟨.complete action child :: rest, q⟩ p ∧
      p.records = q.records ++ [made] ∧ made.action = "CostSplitting.create" ∧
      made.input = expenseOf id event ∧
      p.stage.world.state.planner = q.stage.world.state.planner := by
  have hdeep : 1 ≤ config.engine.maxDepth := by omega
  obtain ⟨rule, g, create, below, hfirings, hcreate, hexpense, hbelow⟩ :=
    firings_of_confirmed happ hunderway.upheld.made haction hid hconfirmed hok
  obtain ⟨p, hreach, hmatched, hstage, hrecords, -⟩ := hunderway.matched happ hdeep hunseen
  rw [hfirings, List.map_cons, List.cons_append] at hreach hmatched
  rw [← hstage] at hstored ⊢
  rw [← hrecords] at hnew hshort ⊢
  obtain ⟨g', hrefine, hinvocations⟩ := hexpense p.stage.world event hblank hstored
  have hname : app.engine.registry.nameOf create = "CostSplitting.create" :=
    Registry.nameOf_of_action hcreate
  obtain ⟨made, p', hmakes, hunderway', hmade⟩ := hmatched.makes happ hdeep hrefine hinvocations
    hdepth (hname ▸ hnew) (hname ▸ happ.completes_expense) hshort
  obtain ⟨p'', hpasses, hpassed, hstage', hrecords'⟩ :=
    hunderway'.passes happ hdeep (hname ▸ unconcerned_by_expense)
  obtain ⟨_, _, hperform, hplanner⟩ :=
    happ.creates_expense hname (expenseOf id event) p.stage.world
  obtain ⟨-, rfl⟩ := Prod.mk.inj (hmade.performed.symm.trans hperform)
  refine ⟨p'', made, ⟨_, hreach.trans (hmakes.trans hpasses), hpassed, fun w hw => ?_⟩,
    hrecords'.trans hmade.records, hmade.action.trans hname, hmade.input, hstage' ▸ hplanner⟩
  rcases List.mem_append.mp hw with hfired | hold
  · obtain ⟨firing, hfiring, rfl⟩ := List.mem_map.mp hfired
    exact hbelow firing hfiring
  · exact hrest w hold

end Run

private theorem get?_passes (user : Value) {fields : Payload}
    (hgiven : ∀ field ∈ approveEvent.given, (fields.get? field).isSome = true) :
    ∀ field ∈ approveEvent.given,
      (approveEvent.passes user fields).get? field = fields.get? field := by
  intro field hfield
  obtain ⟨value, hvalue⟩ := Option.isSome_iff_exists.mp (hgiven field hfield)
  simp only [approveEvent, List.mem_cons, List.not_mem_nil, or_false] at hfield
  rcases hfield with rfl | rfl | rfl <;>
    simp [Handler.passes, approveEvent, Table.ofList, Table.get?_insert, hvalue]

namespace App

variable {config : AppConfig} {app : App} {path : String} {body : Value} {fields : Payload}
  {stage : AppStage}

/-- A call in which an event is approved comes to an expense of the event exactly if that leaves the
event approved. -/
def ExpensesAgree (app : App) (path : String) (body : Value) (stage : AppStage) : Prop :=
  ∃ id event, body.field? "event" = some (.string id) ∧
    (app.handle path body stage).2.world.state.planner.events.get? id = some event ∧
    callsOf app.engine.registry "CostSplitting.create" (app.activities path body stage) =
      if event.approved then [expenseOf id event] else []

def ApprovalSucceeds (app : App) (path : String) (body : Value) (stage : AppStage) : Prop :=
  ∃ call ∈ app.activities path body stage,
    call.succeeds app.engine.registry approveEvent.operation = true

private theorem approval_of_succeeds (hbuild : build config = .ok app)
    (hreach : app.Reachable stage) (hdeep : 2 ≤ config.engine.maxDepth)
    (hpath : config.requesting.stripBase path = approveEvent.path)
    (hsucceeds : app.ApprovalSucceeds path (.object fields) stage) :
    ∃ id event, fields.get? "event" = some (.string id) ∧
      (app.handle path (.object fields) stage).2.world.state.planner.events.get? id = some event ∧
      event.approved = (approval? fields).getD true ∧
      callsOf app.engine.registry "CostSplitting.create"
          (app.activities path (.object fields) stage) =
        if approval? fields = some true then [expenseOf id event] else [] := by
  have happ := isBuilt hbuild
  have hshallow : 1 ≤ config.engine.maxDepth := Nat.le_of_lt hdeep
  have hh : approveEvent ∈ handlers := by simp [handlers]
  have hstripped : app.gateway.config.stripBase path = approveEvent.path := happ.settings ▸ hpath
  obtain ⟨call, hmem, hsucceeds⟩ := hsucceeds
  obtain ⟨action, input, world, output, after, rfl, hname, hperform, hok⟩ :=
    Activity.succeeds_iff.mp hsucceeds
  obtain ⟨user, opened, e, others, root, l, last, f, child, rest, q, hgiven, hserved, rfl, hhandled,
    -, hends⟩ := handled_of_performed hbuild hreach hdeep hh hpath hmem hname
  obtain ⟨houtput, rfl⟩ := Prod.mk.inj (hperform.symm.trans hends)
  obtain rfl := Outcome.ok.inj houtput
  obtain ⟨id, event, hid, hblank, hstored, happroved⟩ := happ.approves hname hperform hok
  have hpasses := get?_passes (.string user) hgiven
  have hsaid : approval? (approveEvent.passes (.string user) fields) = approval? fields :=
    congrArg (Option.bind · Value.asBool?) (hpasses "approved" (by decide))
  have hunderway := hhandled.underway happ hshallow hserved.course hserved.serves
    (by simp [Gateway.requestInput, Table.get?_insert, hstripped])
  rw [hsaid] at happroved
  by_cases hconfirmed : approval? fields = some true
  · have hopening : root.action = "Requesting.request" :=
      hserved.serves.opened.action.trans (Registry.nameOf_of_action happ.request)
    obtain ⟨p, made, hanswers, hrecords, hmade, hinput, hplanner⟩ := answersFrom_of_confirmed happ
      hunderway hhandled.unseen hhandled.rest hhandled.invokes
      (by rw [hhandled.childOf.depth, hserved.serves.opened.isRoot.depth]; exact hdeep)
      (by rw [hhandled.records]; simp [hopening, hhandled.name]; decide)
      (by simp [hhandled.records, Uuid.supply]) (hhandled.input.symm ▸ hid) hblank hstored
      (by rw [hhandled.input, hsaid, hconfirmed]) hok
    obtain ⟨hstate, -, hcalls⟩ :=
      hserved.ends happ hshallow hh hhandled hanswers hrecords (by simp [hmade])
    refine ⟨id, event, hpasses "event" (by decide) ▸ hid, ?_, happroved, ?_⟩
    · rw [hstate, hplanner]
      exact hstored
    · rw [if_pos hconfirmed, hcalls _ happ.completes_expense (by decide)]
      simp [inputs, completionsOf, hmade, hinput]
  · obtain ⟨p, hanswers, hrecords, hstage⟩ := answersFrom_of_unconfirmed happ hshallow hunderway
      hhandled.unseen hhandled.rest hhandled.invokes (by rwa [hhandled.input, hsaid])
    obtain ⟨hstate, -, hcalls⟩ := hserved.ends happ hshallow hh hhandled hanswers
      (hrecords.trans (List.append_nil _).symm) (by simp)
    refine ⟨id, event, hpasses "event" (by decide) ▸ hid, ?_, happroved, ?_⟩
    · rw [hstate, hstage]
      exact hstored
    · rw [if_neg hconfirmed, hcalls _ happ.completes_expense (by decide)]
      rfl

private theorem bool_of_expensesAgree (hbuild : build config = .ok app)
    (hreach : app.Reachable stage) (hdeep : 2 ≤ config.engine.maxDepth)
    (hpath : config.requesting.stripBase path = approveEvent.path)
    (hsucceeds : app.ApprovalSucceeds path (.object fields) stage)
    (hagree : app.ExpensesAgree path (.object fields) stage) :
    ∃ b, fields.get? "approved" = some (.bool b) := by
  obtain ⟨id, event, hid, hstored, happroved, hcalls⟩ :=
    approval_of_succeeds hbuild hreach hdeep hpath hsucceeds
  obtain ⟨id', event', hid', hstored', hagree⟩ := hagree
  obtain rfl := Value.string.inj (Option.some.inj (hid.symm.trans hid'))
  obtain rfl := Option.some.inj (hstored.symm.trans hstored')
  rw [hcalls, happroved] at hagree
  cases hsaid : approval? fields with
  | none => simp [hsaid] at hagree
  | some b => exact ⟨b, approval?_eq_some.mp hsaid⟩

/-- In every state that the application can reach, a call in which an event is approved comes to the
expense that it should exactly if the word of approval is a boolean. -/
theorem expensesAgree_iff (hbuild : build config = .ok app) (hreach : app.Reachable stage)
    (hdeep : 2 ≤ config.engine.maxDepth)
    (hpath : config.requesting.stripBase path = approveEvent.path)
    (hsucceeds : app.ApprovalSucceeds path body stage) :
    app.ExpensesAgree path body stage ↔ ∃ b, body.field? "approved" = some (.bool b) := by
  obtain ⟨fields, rfl⟩ := hsucceeds.elim fun _ hcall => exists_fields hcall.1
  constructor
  · exact bool_of_expensesAgree hbuild hreach hdeep hpath hsucceeds
  · rintro ⟨b, hb⟩
    obtain ⟨id, event, hid, hstored, happroved, hcalls⟩ :=
      approval_of_succeeds hbuild hreach hdeep hpath hsucceeds
    refine ⟨id, event, hid, hstored, ?_⟩
    rw [hcalls, happroved, approval?_eq_some.mpr hb]
    simp

private def planned? (app : App) (approved : Value) (stage : AppStage) :
    Option (AppStage × Payload) := do
  let created ←
    app.calledWithin? 10 "ItineraryPlanner" "create" (.single "trip" (.string "rome")) stage
  let itinerary ← created.world.state.planner.itineraries.keys.head?
  let added ← app.calledWithin? 10 "ItineraryPlanner" "addEvent"
    [("cost", .ofInt 45), ("itinerary", .string itinerary), ("name", .string "Museum")] created
  let event ← added.world.state.planner.events.keys.head?
  let session ← added.world.state.sessions.keys.head?
  return (added, [("approved", approved), ("event", .string event),
    ("itinerary", .string itinerary), ("session", .string session)])

private theorem Reachable.planned (hreach : app.Reachable stage) {approved : Value}
    {after : AppStage} (h : planned? app approved stage = some (after, fields)) :
    app.Reachable after ∧ fields.get? "approved" = some approved := by
  obtain ⟨_, hcreated, h⟩ := Option.bind_eq_some_iff.mp h
  obtain ⟨_, -, h⟩ := Option.bind_eq_some_iff.mp h
  obtain ⟨_, hadded, h⟩ := Option.bind_eq_some_iff.mp h
  obtain ⟨_, -, h⟩ := Option.bind_eq_some_iff.mp h
  obtain ⟨_, -, h⟩ := Option.bind_eq_some_iff.mp h
  obtain ⟨rfl, rfl⟩ := Prod.mk.inj (Option.some.inj h)
  exact ⟨(hreach.called hcreated).called hadded, rfl⟩

private def approves? (approved : Value) (start : AppStage) : Option Bool := do
  let app ← (build {}).toOption
  let call ← planned? app approved start
  let calls ← app.activitiesWithin? 50 "/api/ItineraryPlanner/approveEvent" call.2 call.1
  return calls.any (Activity.succeeds app.engine.registry approveEvent.operation)

private theorem exists_approval {start : AppStage} (hstart : ∀ app : App, app.Reachable start)
    {approved : Value} (h : approves? approved start = some true) :
    ∃ (app : App) (stage : AppStage) (fields : Payload), build {} = .ok app ∧
      app.Reachable stage ∧ fields.get? "approved" = some approved ∧
      app.ApprovalSucceeds "/api/ItineraryPlanner/approveEvent" (.object fields) stage := by
  unfold approves? at h
  obtain ⟨app, hbuild, h⟩ := Option.bind_eq_some_iff.mp h
  obtain ⟨⟨stage, fields⟩, hplanned, h⟩ := Option.bind_eq_some_iff.mp h
  obtain ⟨calls, hcalls, h⟩ := Option.bind_eq_some_iff.mp h
  obtain ⟨call, hcall, hsucceeds⟩ := List.any_eq_true.mp (Option.some.inj h)
  obtain ⟨hreach, hsaid⟩ := (hstart app).planned hplanned
  exact ⟨app, stage, fields, build_of_toOption hbuild, hreach, hsaid, call,
    mem_activities_of_within hcalls hcall, hsucceeds⟩

/-- An event that is approved by `true` becomes an expense. -/
theorem expensesAgree_true :
    ∃ app stage body, build {} = .ok app ∧ app.Reachable stage ∧
      body.field? "approved" = some (.bool true) ∧
      app.ApprovalSucceeds "/api/ItineraryPlanner/approveEvent" body stage ∧
      app.ExpensesAgree "/api/ItineraryPlanner/approveEvent" body stage := by
  obtain ⟨app, stage, fields, hbuild, hreach, hsaid, hsucceeds⟩ :=
    exists_approval (fun app => .login "alice" (.start 0))
      (show approves? (.bool true) _ = some true by decide +kernel)
  exact ⟨app, stage, .object fields, hbuild, hreach, hsaid, hsucceeds,
    (expensesAgree_iff hbuild hreach (by decide) (by decide) hsucceeds).mpr ⟨true, hsaid⟩⟩

/-- An event that is approved by a text becomes none. -/
theorem not_expensesAgree_yes :
    ∃ app stage body, build {} = .ok app ∧ app.Reachable stage ∧
      body.field? "approved" = some (.string "yes") ∧
      app.ApprovalSucceeds "/api/ItineraryPlanner/approveEvent" body stage ∧
      ¬ app.ExpensesAgree "/api/ItineraryPlanner/approveEvent" body stage := by
  obtain ⟨app, stage, fields, hbuild, hreach, hsaid, hsucceeds⟩ :=
    exists_approval (fun app => .login "alice" (.start 0))
      (show approves? (.string "yes") _ = some true by decide +kernel)
  refine ⟨app, stage, .object fields, hbuild, hreach, hsaid, hsucceeds, fun hagree => ?_⟩
  obtain ⟨b, hb⟩ := bool_of_expensesAgree hbuild hreach (by decide) (by decide) hsucceeds hagree
  cases hsaid.symm.trans hb

end App

end Travel

end ConceptSync
