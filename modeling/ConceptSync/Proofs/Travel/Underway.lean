import ConceptSync.Proofs.Travel.Gate
import ConceptSync.Proofs.Travel.Handling

set_option autoImplicit false
set_option relaxedAutoImplicit false

/-!
Runs of requests on their way. Work is done from the top of the stack: a rule that makes one
invocation has it made before all that lies below, what nobody waits for leads to nothing, and where
nothing but answers is left, the answers are all that is added.
-/

namespace ConceptSync

namespace Travel

/-- The loop of a run that serves a request on a route, which was not cancelled and has the store
for itself. -/
structure Underway (app : App) (route : String) (l : Loop TravelWorld RecordStore) : Prop where
  uncancelled : l.progress.run.cancel = none
  course : ∃ ms, Run.Course app.engine False ms l
  upheld : l.Upheld (routed app.engine.registry route) app.engine
  undisturbed : l.Undisturbed

/-- An action was performed for an earlier completion of a run, and what it completed is the last
record of the run, to be matched next. -/
structure Made (app : App) (id : ActionId) (input : Payload) (trigger made : Record)
    (p q : Progress TravelWorld RecordStore) : Prop where
  performed : app.engine.registry.perform id input p.stage.world =
    (.ok made.output, q.stage.world)
  records : q.records = p.records ++ [made]
  action : made.action = app.engine.registry.nameOf id
  input : made.input = input
  depth : made.depth = trigger.depth + 1
  later : ∀ r ∈ p.records, r.seq < made.seq
  joins : q.run.joins = p.run.joins
  unseen : made.id ∉ q.run.seen

variable {config : AppConfig} {app : App} {route : String} {l l' : Loop TravelWorld RecordStore}
  {rule : Rule TravelWorld} {frames : List Frame} {id : ActionId} {record trigger : Record}
  {rest : List (Work TravelWorld)} {p q : Progress TravelWorld RecordStore}

namespace Underway

private theorem turn (happ : app.IsBuilt config) (hdeep : 1 ≤ config.engine.maxDepth)
    (h : Underway app route l) (hturn : l.turn app.engine = .inl l') : Underway app route l' := by
  obtain ⟨ms, hcourse⟩ := h.course
  exact
    { uncancelled := (Loop.continues_of_reaches (.single hturn)).cancel.trans h.uncancelled
      course := ⟨_, hcourse.turn hturn⟩
      upheld := h.upheld.turn ((happ.answering hdeep).upholds_routed route) hturn
      undisturbed := h.undisturbed.turn hcourse hturn }

theorem matched (happ : app.IsBuilt config) (hdeep : 1 ≤ config.engine.maxDepth)
    (h : Underway app route ⟨.complete id record :: rest, p⟩) (hunseen : record.id ∉ p.run.seen) :
    ∃ q, Loop.Reaches app.engine ⟨.complete id record :: rest, p⟩
        ⟨((p.run.firings id record app.engine.rules).map fun firing =>
          .evaluate firing.1 firing.2 record) ++ rest, q⟩ ∧
      Underway app route ⟨((p.run.firings id record app.engine.rules).map fun firing =>
          .evaluate firing.1 firing.2 record) ++ rest, q⟩ ∧
      q.stage = p.stage ∧ q.records = p.records ∧
      q.run.joins = (p.run.matched id record app.engine.rules).joins := by
  have hturn := Loop.turn_of_unseen app.engine h.uncancelled rfl hunseen
  have hcontinues := Loop.continues_of_reaches (.single hturn)
  exact ⟨_, .single hturn, h.turn happ hdeep hturn, rfl,
    congrArg p.stage.store.readRun hcontinues.id, rfl⟩

theorem passes (happ : app.IsBuilt config) (hdeep : 1 ≤ config.engine.maxDepth)
    (h : Underway app route ⟨.complete id record :: rest, p⟩)
    (hnone : ∀ s ∈ Source.all, app.engine.registry.nameOf id ∉ s.waitsFor) :
    ∃ q, Loop.Reaches app.engine ⟨.complete id record :: rest, p⟩ ⟨rest, q⟩ ∧
      Underway app route ⟨rest, q⟩ ∧ q.stage = p.stage ∧ q.records = p.records := by
  have hunwaited : ∀ rule ∈ app.engine.rules, ∀ pattern ∈ rule.clauses.whenPatterns,
      pattern.action ≠ id := by
    rintro rule hrule pattern hpattern rfl
    obtain ⟨s, hs, hwired⟩ := exists_source happ.wired rule hrule
    exact hnone s hs (hwired.mem_waitsFor hpattern)
  obtain ⟨run, hturn⟩ := Loop.turn_of_unwaited hunwaited record rest h.uncancelled
  have hcontinues := Loop.continues_of_reaches (.single hturn)
  exact ⟨_, .single hturn, h.turn happ hdeep hturn, rfl,
    congrArg p.stage.store.readRun hcontinues.id⟩

theorem drops (happ : app.IsBuilt config) (hdeep : 1 ≤ config.engine.maxDepth)
    (h : Underway app route ⟨.evaluate rule frames trigger :: rest, p⟩)
    (hrefine : refine rule frames p.stage.world = (.frames [], p.stage.world)) :
    Loop.Reaches app.engine ⟨.evaluate rule frames trigger :: rest, p⟩ ⟨rest, p⟩ ∧
      Underway app route ⟨rest, p⟩ := by
  have hstep := step_dropped (congrArg Prod.fst hrefine) app.engine trigger
  rw [hrefine] at hstep
  have hturn := Loop.turn_of_step h.uncancelled rfl hstep
  exact ⟨.single hturn, h.turn happ hdeep hturn⟩

theorem makes (happ : app.IsBuilt config) (hdeep : 1 ≤ config.engine.maxDepth) {f g : Frame}
    {input : Payload} (h : Underway app route ⟨.evaluate rule [f] trigger :: rest, p⟩)
    (hrefine : refine rule [f] p.stage.world = (.frames [g], p.stage.world))
    (hinvocations : rule.invocations g = [(id, input)])
    (hdepth : trigger.depth + 1 ≤ config.engine.maxDepth)
    (hnew : ∀ r ∈ p.records, r.action ≠ app.engine.registry.nameOf id)
    (hcompletes : app.engine.registry.Completes (app.engine.registry.nameOf id))
    (hshort : p.records.length < Uuid.supply) :
    ∃ made q, Loop.Reaches app.engine ⟨.evaluate rule [f] trigger :: rest, p⟩
        ⟨.complete id made :: rest, q⟩ ∧
      Underway app route ⟨.complete id made :: rest, q⟩ ∧ Made app id input trigger made p q := by
  obtain ⟨run, hjoins, -, hgoes, hevaluate⟩ :=
    step_refined hrefine hinvocations app.engine trigger
  have hevaluated := Loop.turn_of_step (l := ⟨.evaluate rule [f] trigger :: rest, p⟩)
    h.uncancelled rfl hevaluate
  have hasked := h.turn happ hdeep hevaluated
  obtain ⟨_, hcourse⟩ := hasked.course
  have hsame : (p.withRun run).records = p.records :=
    congrArg p.stage.store.readRun (Loop.continues_of_reaches (.single hevaluated)).id
  have htrigger : trigger ∈ (p.withRun run).records :=
    hcourse.queued (.invoke rule id input trigger) (by simp)
  have hallowed := Progress.refusal_of_new hcourse.reachable hcourse.grown htrigger
    (happ.limits ▸ hdepth) (fun r hr => hnew r (hsame ▸ hr)) input
  obtain ⟨made, q, hstep, hmade, hkept⟩ := Loop.turn_of_invocation rule rest hcourse.reachable
    htrigger hasked.uncancelled hallowed hcompletes
  refine ⟨made, q, .head hevaluated (.single hmade), hasked.turn happ hdeep hmade,
    { performed := hkept.performed
      records := hkept.records.trans (congrArg (· ++ [made]) hsame)
      action := hkept.action
      input := hkept.input
      depth := hkept.childOf.depth
      later := fun r hr => hkept.latest r (hsame.symm ▸ hr)
      joins := (congrArg Run.joins hkept.run).trans hjoins
      unseen := hasked.undisturbed.unseen hcourse (hsame ▸ hshort) hstep hkept }⟩

private theorem answers (happ : app.IsBuilt config) (hdeep : 1 ≤ config.engine.maxDepth)
    (h : Underway app route l)
    (hstack : ∀ w ∈ l.stack, w.LeadsTo app.engine.registry ["Requesting.respond"]) :
    (drain app.engine l.stack l.progress).2.stage.world.state = l.progress.stage.world.state ∧
      ∃ later, (drain app.engine l.stack l.progress).2.records = l.progress.records ++ later ∧
        ∀ r ∈ later, r.action = "Requesting.respond" := by
  have hengine := happ.answering hdeep
  obtain ⟨ms, hcourse⟩ := h.course
  have hleads : l.Leads (routed app.engine.registry route) ["Requesting.respond"] app.engine :=
    ⟨h.course, h.upheld, hstack⟩
  have hstays : app.engine.Stays (routed app.engine.registry route) ["Requesting.respond"] :=
    (happ.settles_nil route).after
  constructor
  · refine hcourse.view_drain World.state (fun rule hrule frames world =>
      congrArg World.state (hengine.world_refine hrule frames world))
      fun action input world hcalled => ?_
    have hname := hleads.performed (hengine.upholds_routed route) hstays hcalled
    rw [hengine.responds action input (List.mem_singleton.mp hname)]
    rfl
  · obtain ⟨later, hrecords, hlater⟩ :=
      hleads.records_drain (hengine.upholds_routed route) hstays
    exact ⟨later, hrecords, fun r hr => List.mem_singleton.mp (hlater r hr)⟩

end Underway

def AnswersFrom (app : App) (route : String) (l : Loop TravelWorld RecordStore)
    (p : Progress TravelWorld RecordStore) : Prop :=
  ∃ stack, Loop.Reaches app.engine l ⟨stack, p⟩ ∧ Underway app route ⟨stack, p⟩ ∧
    ∀ w ∈ stack, w.LeadsTo app.engine.registry ["Requesting.respond"]

namespace AnswersFrom

theorem of_reaches (h : AnswersFrom app route l' p) (hreach : Loop.Reaches app.engine l l') :
    AnswersFrom app route l p := by
  obtain ⟨stack, hafter, hunderway, hleads⟩ := h
  exact ⟨stack, hreach.trans hafter, hunderway, hleads⟩

private theorem drained (happ : app.IsBuilt config) (hdeep : 1 ≤ config.engine.maxDepth)
    (h : AnswersFrom app route l p) (hnone : answersOf p.records = []) :
    (drain app.engine l.stack l.progress).2.stage.world.state = p.stage.world.state ∧
      (drain app.engine l.stack l.progress).2.records =
        p.records ++ answersOf (drain app.engine l.stack l.progress).2.records := by
  obtain ⟨stack, hreach, hunderway, hleads⟩ := h
  obtain ⟨hstate, later, hrecords, hlater⟩ := hunderway.answers happ hdeep hleads
  rw [Loop.drain_of_reaches hreach]
  refine ⟨hstate, ?_⟩
  have hall : answersOf later = later := List.filter_eq_self.mpr fun r hr => by simp [hlater r hr]
  rw [hrecords, answersOf, List.filter_append]
  exact congrArg (p.records ++ ·) ((congrArg₂ (· ++ ·) hnone hall).trans (List.nil_append _)).symm

end AnswersFrom

theorem Handled.underway (happ : app.IsBuilt config) (hdeep : 1 ≤ config.engine.maxDepth)
    {opened : AppStage} {input passed : Payload} {e : OpenRequest} {others : List OpenRequest}
    {root child : Record} {last : Rule TravelWorld} {f : Frame} {h : Handler}
    (hcourse : Run.Course app.engine False [] l)
    (hserves : Run.Serves app.engine app.gateway.requestAction opened input e others root l last f)
    (hpath : input.get? "path" = some (.string h.path))
    (hhandled : Handled app h passed root l id child rest q) :
    Underway app h.path ⟨.complete id child :: rest, q⟩ := by
  obtain ⟨hserving, hroutes⟩ := hhandled.reached (happ.answering hdeep) hserves hpath
  exact
    { uncancelled := hserving.uncancelled
      course := hserving.course
      upheld := hroutes
      undisturbed := (Loop.Undisturbed.opening hserves.opens hserves.opened.stack
        hserves.records).reaches hcourse hhandled.reaches }

namespace App

variable {path : String} {fields : Payload} {stage : AppStage} {h : Handler}

theorem exists_fields {body : Value} {call : Activity TravelWorld}
    (h : call ∈ app.activities path body stage) : ∃ fields : Payload, body = .object fields := by
  cases body with
  | object fields => exact ⟨fields, rfl⟩
  | _ => cases h

private theorem not_performed_of_answers (hh : h ∈ handlers) {calls : List (Activity TravelWorld)}
    (hcalls : ∀ action input world, .performed action input world ∈ calls →
      app.engine.registry.nameOf action ∈ ["Requesting.request", "Requesting.respond"])
    {action : ActionId} {input : Payload} {world : TravelWorld}
    (hcall : .performed action input world ∈ calls) :
    app.engine.registry.nameOf action ≠ h.operation := by
  obtain ⟨hreenters, -, hne⟩ := not_mem_consequences h hh
  intro hname
  have hmem := hcalls action input world hcall
  rw [hname] at hmem
  rcases List.mem_pair.mp hmem with heq | heq
  · exact hne heq
  · exact hreenters (heq ▸ List.mem_cons_self ..)

/-- The action of a handler is performed in a call on its route only if the handler passed it on. -/
theorem handled_of_performed (hbuild : build config = .ok app) (hreach : app.Reachable stage)
    (hdeep : 2 ≤ config.engine.maxDepth) (hh : h ∈ handlers)
    (hpath : config.requesting.stripBase path = h.path) {action : ActionId} {input : Payload}
    {world : TravelWorld}
    (hcall : .performed action input world ∈ app.activities path (.object fields) stage)
    (hname : app.engine.registry.nameOf action = h.operation) :
    ∃ user opened e others root l last f child rest q,
      (∀ field ∈ h.given, (fields.get? field).isSome = true) ∧
      app.ServesCall path fields stage opened e others root l last f ∧
      input = h.passes (.string user) fields ∧
      Handled app h input root l action child rest q ∧
      .performed action input world ∈ l.activities app.engine ∧
      app.engine.registry.perform action input world = (.ok child.output, q.stage.world) := by
  have happ := isBuilt hbuild
  have hshallow : 1 ≤ config.engine.maxDepth := Nat.le_of_lt hdeep
  have hstripped : app.gateway.config.stripBase path = h.path := happ.settings ▸ hpath
  have hexcluded : ∀ h ∈ handlers, h.path ∈ exclusions := by decide +kernel
  cases huser : verifiedUser? (.object fields) stage with
  | none =>
    obtain ⟨_, _, hturned⟩ := turnsAway_of_exclusion hbuild hreach hshallow
      (hpath ▸ hexcluded h hh) huser
    exact absurd hname (not_performed_of_answers hh hturned.calls hcall)
  | some user =>
    by_cases hmissing : ∃ field ∈ h.given, fields.get? field = none
    · obtain ⟨_, _, hunhandled⟩ :=
        unhandled_of_missing hbuild hreach hshallow hh hstripped huser hmissing
      exact absurd hname (not_performed_of_answers hh hunhandled.calls hcall)
    · have hgiven : ∀ field ∈ h.given, (fields.get? field).isSome = true :=
        fun field hfield =>
          Option.isSome_iff_ne_none.mpr fun hnone => hmissing ⟨field, hfield, hnone⟩
      obtain ⟨opened, e, others, root, l, last, f, action', child, rest, q, hserved, hhandled⟩ :=
        handled_of_given hbuild hreach hshallow hh hstripped huser hgiven
      obtain ⟨_, _, _, hhandles⟩ := handles_of_given hbuild hreach hdeep hh hstripped huser hgiven
      obtain ⟨world', hperformed, hperform⟩ := hhandled.performed
      have hsame := unique_of_callsOf hhandles.once
        (hserved.activities ▸ List.mem_cons_of_mem _ hperformed)
        (Registry.nameOf_of_action hhandled.invokes) hcall hname
      obtain ⟨rfl, rfl, rfl⟩ := Activity.performed.inj hsame
      exact ⟨user, opened, e, others, root, l, last, f, child, rest, q, hgiven, hserved, rfl,
        hhandled, hperformed, hperform⟩

/-- A call that comes from what its handler passed on to these completions, and only answers from
then on, ends with the state of that moment. It records, and calls, nothing but these and answers. -/
theorem ServesCall.ends (happ : app.IsBuilt config) (hdeep : 1 ≤ config.engine.maxDepth)
    (hh : h ∈ handlers) {opened : AppStage} {e : OpenRequest} {others : List OpenRequest}
    {root child : Record} {l : Loop TravelWorld RecordStore} {last : Rule TravelWorld} {f : Frame}
    {action : ActionId} {passed : Payload} {rest : List (Work TravelWorld)}
    {q p : Progress TravelWorld RecordStore}
    (hserved : app.ServesCall path fields stage opened e others root l last f)
    (hhandled : Handled app h passed root l action child rest q)
    (hanswers : AnswersFrom app h.path ⟨.complete action child :: rest, q⟩ p) {made : List Record}
    (hrecords : p.records = q.records ++ made)
    (hmade : ∀ r ∈ made, r.action ≠ "Requesting.respond") :
    (app.handle path (.object fields) stage).2.world.state = p.stage.world.state ∧
      (drain app.engine l.stack l.progress).2.records = [root, child] ++ made ++
        answersOf (drain app.engine l.stack l.progress).2.records ∧
      ∀ name, app.engine.registry.Completes name →
        name ∉ ["Requesting.request", h.operation, "Requesting.respond"] →
        callsOf app.engine.registry name (app.activities path (.object fields) stage) =
          inputs (completionsOf name made) := by
  have hopening : root.action = "Requesting.request" :=
    hserved.serves.opened.action.trans (Registry.nameOf_of_action happ.request)
  have hbefore : p.records = [root, child] ++ made := by rw [hrecords, hhandled.records]
  have hnone : answersOf p.records = [] := by
    have hname : h.operation ≠ "Requesting.respond" := fun heq =>
      (not_mem_consequences h hh).1 (heq ▸ List.mem_cons_self ..)
    rw [hbefore]
    simpa [answersOf, hopening, hhandled.name, hname] using hmade
  obtain ⟨hstate, hends⟩ := (hanswers.of_reaches hhandled.reaches).drained happ hdeep hnone
  rw [hbefore] at hends
  refine ⟨hserved.state.trans hstate, hends, fun name hcompletes hother => ?_⟩
  obtain ⟨hrequest, hother⟩ := not_or.mp (mt List.mem_cons.mpr hother)
  obtain ⟨hoperation, hrespond⟩ := not_or.mp (mt List.mem_cons.mpr hother)
  have hanswered : ∀ records, completionsOf name (answersOf records) = [] := fun records =>
    List.filter_eq_nil_iff.mpr fun r hr heq => hrespond (List.mem_singleton.mpr
      ((beq_iff_eq.mp heq).symm.trans (beq_iff_eq.mp (List.mem_filter.mp hr).2)))
  rw [hserved.callsOf_eq hcompletes, hends, completionsOf_append, hanswered, List.append_nil,
    completionsOf_append]
  simp [completionsOf, hopening, hhandled.name, Ne.symm hrequest, Ne.symm hoperation]

end App

end Travel

end ConceptSync
