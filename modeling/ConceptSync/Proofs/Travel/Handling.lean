import ConceptSync.Proofs.Travel.Answering
import ConceptSync.Proofs.Travel.Outputs
import ConceptSync.Proofs.Travel.Responding

set_option autoImplicit false
set_option relaxedAutoImplicit false

/-!
Calls on the routes of handlers by verified users. With all fields of the request, the action is
performed once and the caller is told what it came to; without one of them nothing is performed, and
the caller is told that there is no handler.
-/

namespace ConceptSync

namespace Travel

section Requests

variable {h : Handler} {fields : Payload} {user : String}

private theorem get?_requestInput (hh : h ∈ handlers) (fields : Payload) (user : String) :
    (Gateway.requestInput h.path fields (some user)).get? "path" = some (.string h.path) ∧
      (Gateway.requestInput h.path fields (some user)).get? "user" = some (.string user) ∧
      ∀ field ∈ h.given,
        (Gateway.requestInput h.path fields (some user)).get? field = fields.get? field := by
  obtain ⟨hpath, huser⟩ := List.nodup_cons.mp (fields_of_handler h hh).1
  refine ⟨by simp [Gateway.requestInput, Table.get?_insert], by simp [Gateway.requestInput],
    fun field hfield => ?_⟩
  have hnotPath : "path" ≠ field := fun heq => hpath (heq ▸ List.mem_cons_of_mem _ hfield)
  have hnotUser : "user" ≠ field := fun heq => (List.nodup_cons.mp huser).1 (heq ▸ hfield)
  simp [Gateway.requestInput, Table.get?_insert, hnotPath, hnotUser]

private theorem passes_requestInput (hh : h ∈ handlers) (fields : Payload) (user : String) :
    h.passes (.string user) (Gateway.requestInput h.path fields (some user)) =
      h.passes (.string user) fields := by
  obtain ⟨_, _, hgiven⟩ := get?_requestInput hh fields user
  unfold Handler.passes
  congr 2
  exact List.map_congr_left fun field hfield => by rw [hgiven field hfield]

private theorem isSome_passes (hh : h ∈ handlers) (hfrom : h.fromOutput = false) (value : Value)
    (request : Payload) {e : String × String} (he : e ∈ h.answers) :
    ((h.passes value request).get? e.2).isSome = true := by
  have hrepeats : ∀ h ∈ handlers, h.fromOutput = false → ∀ e ∈ h.answers, e.2 ∈ h.given := by
    decide
  refine Table.isSome_get?.mpr (Table.mem_keys_ofList.mpr ?_)
  rw [List.map_append, List.map_map, List.map_map]
  exact List.mem_append_right _ (List.mem_map.mpr ⟨e.2, hrepeats h hh hfrom e he, rfl⟩)

end Requests

section Leading

variable {registry : Registry TravelWorld} {engine : Engine TravelWorld} {run : Run TravelWorld}
  {action : ActionId} {record : Record} {rule : Rule TravelWorld} {frames : List Frame}
  {s : Source} {h : Handler} {names : List String}

private theorem leadsTo_of_opening (hh : h ∈ handlers)
    (hmade : run.Made (routed engine.registry h.path) engine)
    (hname : engine.registry.nameOf action = "Requesting.request")
    (hpath : record.input.get? "path" = some (.string h.path)) (hs : s ∈ Source.all)
    (hother : s ≠ .passOn h) (hwired : s.Wired engine.registry rule)
    (hfiring : (rule, frames) ∈ run.firings action record engine.rules) (trigger : Record) :
    (Work.evaluate rule frames trigger).LeadsTo engine.registry ["Requesting.respond"] := by
  obtain ⟨hserves, hwaits, _⟩ := hwired.of_firing hmade (fun _ => hpath) hfiring
  rcases invokes_of_request h hh s hs hserves (hname ▸ hwaits) with heq | hinvokes
  · exact absurd heq hother
  · exact hwired.leadsTo (List.mem_singleton.mpr hinvokes) frames trigger

private theorem leadsTo_of_done (hh : h ∈ handlers)
    (hmade : run.Made (routed engine.registry h.path) engine)
    (hname : engine.registry.nameOf action = h.operation)
    (hcompleted : h.Completed record.input record.output) (hs : s ∈ Source.all) (hknown : s.Known)
    (hbuilds : s.definition.Builds engine.registry rule) (hother : s ≠ h.responder record.output)
    (hfiring : (rule, frames) ∈ run.firings action record engine.rules) (trigger : Record) :
    (Work.evaluate rule frames trigger).LeadsTo engine.registry (consequences h.operation) := by
  have hwired := Source.wired_of_builds hknown hbuilds
  obtain ⟨_, _, hne⟩ := not_mem_consequences h hh
  obtain ⟨hserves, hwaits, p, hp, f, hunify⟩ :=
    hwired.of_firing hmade (fun heq => absurd (hname.symm.trans heq) hne) hfiring
  have hnone (hresponds : s = .answerSuccess h ∨ s = .answerError h) : False := by
    have hunmatched := unify_of_not_responder hh hcompleted hresponds hother hbuilds hname p hp
    cases hunify.symm.trans hunmatched
  rcases responders_of_operation h hh s hs hserves (hname ▸ hwaits) with heq | heq | hinvokes
  · exact (hnone (.inl heq)).elim
  · exact (hnone (.inr heq)).elim
  · exact hwired.leadsTo hinvokes frames trigger

end Leading

section Answers

variable {h : Handler} {input output : Payload}

private theorem names_of_answers : ∀ h ∈ handlers, ∀ name ∈ ["request", "status", "error"],
    name ∉ h.answers.map Prod.fst := by
  decide

private theorem get?_success (hh : h ∈ handlers) {name : String}
    (hname : name ∈ ["request", "status", "error"]) (input output : Payload) :
    (Table.ofList (h.success input output)).get? name = none := by
  refine Option.not_isSome_iff_eq_none.mp fun hthere => names_of_answers h hh name hname ?_
  have hmem := Table.mem_keys_ofList.mp (Table.isSome_get?.mp hthere)
  rwa [Handler.success, List.map_map] at hmem

private theorem erase_answered (hh : h ∈ handlers) (id : String) (input output : Payload) :
    (Table.ofList (("request", .string id) :: h.answered input output)).erase "request" =
      Table.ofList (h.answered input output) := by
  refine Table.erase_ofList_cons ?_ _
  unfold Handler.answered
  split
  · simp
  · rw [Handler.success, List.map_map]
    exact names_of_answers h hh "request" (by simp)

private theorem status_success (hh : h ∈ handlers) (input output : Payload) (kind : RouteKind)
    (report : Option Report) :
    (GatewayResponse.mk kind (.object (Table.ofList (h.success input output))) report).status =
      200 := by
  simp [GatewayResponse.status, get?_success hh, Payload.isError, Table.contains]

private theorem status_error (error : Value) (kind : RouteKind) (report : Option Report) :
    (GatewayResponse.mk kind (.object (Payload.single "error" error)) report).status = 400 := by
  simp [GatewayResponse.status, Payload.single, Table.get?, Payload.isError, Table.contains]

private theorem erase_unhandled (id route : String) :
    (Table.ofList (("request", .string id) :: unhandled route)).erase "request" =
      Table.ofList (unhandled route) :=
  Table.erase_ofList_cons (by simp [unhandled]) _

private theorem status_unhandled (route : String) (kind : RouteKind) (report : Option Report) :
    (GatewayResponse.mk kind (.object (Table.ofList (unhandled route))) report).status = 404 := by
  simp [GatewayResponse.status, unhandled, Table.ofList, Value.ofInt, Value.asUnsigned?]

end Answers

section Served

variable {config : AppConfig} {app : App} {h : Handler} {opened : AppStage} {input : Payload}
  {e : OpenRequest} {others : List OpenRequest} {root : Record} {last : Rule TravelWorld}
  {f : Frame} {l : Loop TravelWorld RecordStore}

private theorem App.IsBuilt.expecting_unhandled (happ : app.IsBuilt config)
    (hdeep : 1 ≤ config.engine.maxDepth) (hh : h ∈ handlers)
    (hserves : Run.Serves app.engine app.gateway.requestAction opened input e others root l last f)
    (hpath : input.get? "path" = some (.string h.path))
    (huser : ∃ user, input.get? "user" = some user ∧ user ≠ .null)
    (hmissing : ∃ field ∈ h.given, input.get? field = none) :
    (l.afterMatching app.engine app.gateway.requestAction root).Expecting app.engine
      app.gateway.requestAction last f root others e h.path []
      (Table.ofList (("request", .string e.id) :: unhandled h.path)) [root] := by
  have hsources : List.Forall₂ _ (Source.earlier ++ Source.unhandledRequest :: [])
      app.engine.rules := happ.sources
  obtain ⟨before, rule, after, hrules, hbefore, ⟨_, hbuilds⟩, hafter⟩ := split_of_forall₂ hsources
  obtain rfl := List.forall₂_nil_left_iff.mp hafter
  have hidle : ∀ r ∈ before, r.Idle app.gateway.requestAction root.input root.output := by
    intro r hr
    obtain ⟨s, hs, hknown, hbuilt⟩ := exists_source hbefore r hr
    rw [hserves.opened.input]
    by_cases heq : s = .passOn h
    · subst heq
      have hfields := (fields_of_handler h hh).1
      obtain ⟨user, given, request, action, hp⟩ := passesOn_of_builds hfields.of_cons hbuilt
      exact hp.idle_of_missing hfields hmissing
    · exact s.idle_of_request hs
        (fun htakes => heq (Source.eq_of_takes? _ (Source.passOn_mem_earlier h hh) s hs h.path rfl
          htakes))
        (s.shape_of_builds hknown hbuilt) happ.request hpath huser
  obtain ⟨p, g, hpattern, hunify, hgives⟩ :=
    gives_unhandled happ.operates happ.request hbuilds hpath e.id
  rw [← hserves.opened.input, ← hserves.output] at hunify
  exact hserves.expecting (happ.answering hdeep) hpath hrules hidle hpattern hunify hgives
    fun _ _ hlast => absurd hlast List.not_mem_nil

/-- The loop of a request's run when what the handler passed on completed, and is matched next. -/
structure Handled (app : App) (h : Handler) (passed : Payload) (root : Record)
    (l : Loop TravelWorld RecordStore) (action : ActionId) (child : Record)
    (rest : List (Work TravelWorld)) (q : Progress TravelWorld RecordStore) : Prop where
  invokes : app.engine.registry.action h.concept h.action = .ok action
  reaches : Loop.Reaches app.engine l ⟨.complete action child :: rest, q⟩
  records : q.records = [root, child]
  name : child.action = h.operation
  input : child.input = passed
  childOf : child.ChildOf root
  follows : root.seq < child.seq
  performed : ∃ world, .performed action passed world ∈ l.activities app.engine ∧
    app.engine.registry.perform action passed world = (.ok child.output, q.stage.world)
  completed : h.Completed child.input child.output
  unseen : child.id ∉ q.run.seen
  joins : q.run.joins =
    (l.progress.run.matched app.gateway.requestAction root app.engine.rules).joins
  rest : ∀ w ∈ rest, w.LeadsTo app.engine.registry ["Requesting.respond"]

private theorem App.IsBuilt.handled_of_accepts (happ : app.IsBuilt config)
    (hdeep : 1 ≤ config.engine.maxDepth) (hh : h ∈ handlers)
    (hcourse : Run.Course app.engine False [] l)
    (hserves : Run.Serves app.engine app.gateway.requestAction opened input e others root l last f)
    (haccepts : h.Accepts input) :
    ∃ action value child rest q, input.get? "user" = some value ∧
      Handled app h (h.passes value input) root l action child rest q := by
  have hopened := hserves.opened
  have hname : root.action = "Requesting.request" :=
    hopened.action.trans (Registry.nameOf_of_action happ.request)
  rw [← hopened.input] at haccepts ⊢
  obtain ⟨before, rule, after, p, g, action, value, hrules, hinvokes, hvalue, hidle, hpattern,
    hunify, hrefine, hinvocations, hafter⟩ :=
      exists_passOn happ.sources hh happ.request haccepts root.output
  have haction : app.engine.registry.nameOf action = h.operation :=
    Registry.nameOf_of_action hinvokes
  have hmem : root ∈ l.progress.records := by simp [hserves.records]
  have hallowed : refusal app.engine (app.engine.registry.nameOf action) (h.passes value root.input)
      root l.progress.stage.store = .ok none := by
    refine Progress.refusal_of_new hcourse.reachable hcourse.grown hmem ?_ ?_ _
    · rw [hopened.isRoot.depth, happ.limits]
      exact hdeep
    · simp [hserves.records, hname, haction, Ne.symm (not_mem_consequences h hh).2.2]
  have hcompletes : app.engine.registry.Completes (app.engine.registry.nameOf action) := by
    intro action' input world heq
    obtain ⟨output, after, hperform, _⟩ := happ.delivers hh (heq.trans haction) input world
    exact ⟨output, after, hperform⟩
  obtain ⟨child, later, q, hreach, hrecords, hchild, hinput, hchildOf, hfollows,
    ⟨world, hperformed, hperform⟩, hunseen, hjoins, hlater⟩ :=
      Loop.reaches_second hcourse hserves.opens hopened hserves.records hrules hidle hpattern
        hunify hrefine hinvocations hallowed hcompletes
  refine ⟨action, value, child, _, q, hvalue, hinvokes, hreach, hrecords, hchild.trans haction,
    hinput, hchildOf, hfollows, ⟨world, hperformed, hperform⟩, ?_, hunseen, hjoins, ?_⟩
  · obtain ⟨output, after, hdelivers, hcompleted⟩ :=
      happ.delivers hh haction (h.passes value root.input) world
    obtain ⟨houtput, _⟩ := Prod.mk.inj (hperform.symm.trans hdelivers)
    rw [Outcome.ok.inj houtput, hinput]
    refine hcompleted.imp_right fun ⟨hok, hthere⟩ => ⟨hok, fun e he => ?_⟩
    cases hfrom : h.fromOutput with
    | true => exact hthere hfrom e he
    | false => exact isSome_passes hh hfrom value root.input he
  · intro w hw
    obtain ⟨firing, hfiring, rfl⟩ := List.mem_map.mp hw
    obtain ⟨hfired, hmem⟩ := hlater firing hfiring
    obtain ⟨s, hs, hother, hknown, hbuilds⟩ := hafter _ hmem
    have hmade : l.progress.run.Made (routed app.engine.registry h.path) app.engine :=
      Run.made_of_no_joins (by rw [hopened.run]; rfl)
    exact leadsTo_of_opening hh hmade (Registry.nameOf_of_action happ.request) haccepts.path hs
      hother (Source.wired_of_builds hknown hbuilds) hfired root

theorem Handled.reached (hengine : app.engine.Answering app.gateway.requestAction)
    (hserves : Run.Serves app.engine app.gateway.requestAction opened input e others root l last f)
    (hpath : input.get? "path" = some (.string h.path)) {passed : Payload} {action : ActionId}
    {child : Record} {rest : List (Work TravelWorld)} {q : Progress TravelWorld RecordStore}
    (hhandled : Handled app h passed root l action child rest q) :
    Loop.Serving app.engine app.gateway.requestAction last f root others e
        ⟨.complete action child :: rest, q⟩ ∧
      Loop.Upheld (routed app.engine.registry h.path) app.engine
        ⟨.complete action child :: rest, q⟩ := by
  rcases hhandled.reaches.cases_head with rfl | ⟨l', hturn, hreach⟩
  · have hrecords := hserves.records.symm.trans hhandled.records
    simp at hrecords
  · obtain rfl := Sum.inl.inj (hserves.opened.turn.1.symm.trans hturn)
    exact hserves.reached hengine hpath hreach

private theorem App.IsBuilt.firings_of_handled (happ : app.IsBuilt config) (hh : h ∈ handlers)
    (hserves : Run.Serves app.engine app.gateway.requestAction opened input e others root l last f)
    (hpath : input.get? "path" = some (.string h.path)) {passed : Payload} {action : ActionId}
    {child : Record} {rest : List (Work TravelWorld)} {q : Progress TravelWorld RecordStore}
    (hmade : q.run.Made (routed app.engine.registry h.path) app.engine)
    (hhandled : Handled app h passed root l action child rest q) :
    ∃ above rule frames below,
      q.run.firings action child app.engine.rules = above ++ (rule, frames) :: below ∧
      rule.Gives app.engine.registry frames e.id
        (Table.ofList (("request", .string e.id) :: h.answered child.input child.output)) ∧
      ∀ firing ∈ above ++ below, (Work.evaluate firing.1 firing.2 child).LeadsTo
        app.engine.registry (consequences h.operation) := by
  have hname : app.engine.registry.nameOf action = h.operation :=
    Registry.nameOf_of_action hhandled.invokes
  have hother : action ≠ app.gateway.requestAction := by
    rintro rfl
    exact (not_mem_consequences h hh).2.2
      (hname.symm.trans (Registry.nameOf_of_action happ.request))
  have hresponder : ∀ h ∈ handlers,
      Source.answerSuccess h ∈ Source.all ∧ Source.answerError h ∈ Source.all := by decide +kernel
  have hsource : h.responder child.output ∈ Source.all := by
    unfold Handler.responder
    split
    · exact (hresponder h hh).2
    · exact (hresponder h hh).1
  obtain ⟨before, rule, after, hrules, ⟨_, hbuilds⟩, hbefore, hbelow⟩ :=
    Source.exists_rule happ.sources hsource
  obtain ⟨request, done, fields, opening, respond, g, hresponds, hdone, hunify, hfree, hsaid⟩ :=
    respondsTo_responder hh hhandled.completed hbuilds
  obtain rfl : opening = app.gateway.requestAction :=
    Except.ok.inj (hresponds.listens.symm.trans happ.request)
  obtain rfl : done.action = action := Except.ok.inj (hdone.symm.trans hhandled.invokes)
  have hpending : q.run.joinState before.length rule =
      ⟨[[⟨root.seq, [(request, .string e.id)]⟩], []]⟩ := by
    have hrule : app.engine.rules[before.length]? = some rule := by simp [hrules]
    have hjoins : l.progress.run.joins = [] := by rw [hserves.opened.run]; rfl
    rw [Run.joinState_congr hhandled.joins, Run.joinState_matched _ root hrule]
    refine congrArg Prod.snd (Run.offered_of_first
      (Run.joinState_of_no_joins hjoins _ hresponds.whenPatterns) hresponds.whenPatterns ?_ ?_)
    · rw [hserves.output]
      exact RespondsTo.unify_opening request (hserves.opened.input.symm ▸ hpath) e.id
    · exact if_pos hother
  obtain ⟨above, below, hfirings, habove, hlater⟩ := Run.firings_around after
    (hresponds.fires hpending (Int.ne_of_lt hhandled.follows) hother hunify hfree) (by simp)
  rw [← hrules] at hfirings
  refine ⟨above, rule, _, below, hfirings, ?_, fun firing hfiring => ?_⟩
  · refine hresponds.gives (Table.get?_insert_self _ _ _) (hsaid.imp fun e d hpair => ?_)
    obtain ⟨hfield, hthat⟩ := hpair
    have hbound : request ≠ e.2 := fun heq => by cases (heq ▸ hfree).symm.trans hthat
    exact ⟨hfield, by rw [Table.get?_insert, if_neg hbound, hthat]⟩
  · obtain ⟨s, hs, hdiffers, hknown, hbuilt⟩ : ∃ s ∈ Source.all, s ≠ h.responder child.output ∧
        s.Known ∧ s.definition.Builds app.engine.registry firing.1 := by
      rcases List.mem_append.mp hfiring with hmem | hmem
      · obtain ⟨k, hk, _⟩ := habove firing hmem
        obtain ⟨s, hs, hrest⟩ := hbefore _ (List.mem_of_getElem? hk)
        exact ⟨s, List.mem_append_left _ hs, hrest⟩
      · obtain ⟨k, hk, _⟩ := hlater firing hmem
        exact hbelow _ (List.mem_of_getElem? hk)
    refine leadsTo_of_done hh hmade hname hhandled.completed hs hknown hbuilt hdiffers ?_ child
    rw [hfirings]
    exact List.mem_append.mpr ((List.mem_append.mp hfiring).imp_right (List.mem_cons_of_mem _))

private theorem App.IsBuilt.expecting_answered (happ : app.IsBuilt config)
    (hdeep : 2 ≤ config.engine.maxDepth) (hh : h ∈ handlers)
    (hserves : Run.Serves app.engine app.gateway.requestAction opened input e others root l last f)
    (hpath : input.get? "path" = some (.string h.path)) {passed : Payload} {action : ActionId}
    {child : Record} {rest : List (Work TravelWorld)} {q : Progress TravelWorld RecordStore}
    (hhandled : Handled app h passed root l action child rest q) :
    ∃ l', Loop.Reaches app.engine l l' ∧ l'.Expecting app.engine app.gateway.requestAction last f
      root others e h.path (consequences h.operation)
      (Table.ofList (("request", .string e.id) :: h.answered child.input child.output))
      [root, child] := by
  have hengine := happ.answering (Nat.le_of_lt hdeep)
  obtain ⟨hserving, hroutes⟩ := hhandled.reached hengine hserves hpath
  obtain ⟨above, rule, frames, below, hfirings, hgives, hleads⟩ :=
    happ.firings_of_handled hh hserves hpath hroutes.made hhandled
  have hturn := Loop.turn_of_unseen app.engine hserving.uncancelled rfl hhandled.unseen
  refine ⟨_, hhandled.reaches.tail hturn, hserving.turn hengine hturn,
    hroutes.turn (hengine.upholds_routed h.path) hturn, ?_, [], hhandled.records, by simp⟩
  have hnone : answersOf q.records = [] := by
    rw [hhandled.records]
    have hrespond : h.operation ≠ "Requesting.respond" :=
      fun heq => (not_mem_consequences h hh).1 (heq ▸ List.mem_cons_self ..)
    simp [answersOf, hserving.opens, hhandled.name, hrespond]
  change Expects _ _ _ _ _ (answersOf q.records)
  rw [hnone]
  simp only [Loop.afterMatching, hfirings, List.map_append, List.map_cons, List.append_assoc,
    List.cons_append]
  refine .waiting (fun w hw => ?_) hgives ?_ (fun w hw => ?_)
  · obtain ⟨firing, hfiring, rfl⟩ := List.mem_map.mp hw
    exact hleads firing (List.mem_append_left _ hfiring)
  · rw [hhandled.childOf.depth, hserves.opened.isRoot.depth, happ.limits]
    exact hdeep
  · rcases List.mem_append.mp hw with hmem | hmem
    · obtain ⟨firing, hfiring, rfl⟩ := List.mem_map.mp hmem
      exact (hleads firing (List.mem_append_right _ hfiring)).mono (List.subset_cons_self ..)
    · exact (hhandled.rest w hmem).mono (by simp)

theorem App.IsBuilt.drained_of_handled (happ : app.IsBuilt config)
    (hdeep : 2 ≤ config.engine.maxDepth) (hh : h ∈ handlers)
    (hserves : Run.Serves app.engine app.gateway.requestAction opened input e others root l last f)
    (hpath : input.get? "path" = some (.string h.path)) {passed : Payload} {action : ActionId}
    {child : Record} {rest : List (Work TravelWorld)} {q : Progress TravelWorld RecordStore}
    (hhandled : Handled app h passed root l action child rest q) :
    ∃ ended first later more, drain app.engine l.stack l.progress = (.ok (), ended) ∧
      answersOf ended.records = first :: later ∧
      first.input.erase "request" = Table.ofList (h.answered child.input child.output) ∧
      ended.records = [root, child] ++ more ∧
      ∀ r ∈ more, r.action ∈ "Requesting.respond" :: consequences h.operation := by
  obtain ⟨l', hreaches, hexpecting⟩ := happ.expecting_answered hdeep hh hserves hpath hhandled
  obtain ⟨-, hsilent, -⟩ := not_mem_consequences h hh
  obtain ⟨ended, first, later, more, hdrain, hfirst, hinput, hkept, hmore, -⟩ :=
    hexpecting.drained (happ.answering (Nat.le_of_lt hdeep))
      (happ.settles (closed_consequences h hh) hsilent)
  exact ⟨ended, first, later, more, (Loop.drain_of_reaches hreaches).trans hdrain, hfirst,
    hinput.symm ▸ erase_answered hh e.id child.input child.output, hkept, hmore⟩

end Served

namespace App

/-- A call that a handler serves: its action is performed once, right after the request, with what
the handler passes on, and the caller is told what it came to: its error, or the fields that the
handler's answer repeats, all of which are there. -/
structure Handles (app : App) (h : Handler) (user : String) (fields : Payload)
    (calls : List (Activity TravelWorld)) (response : GatewayResponse) (record : Record) : Prop where
  once : callsOf app.engine.registry h.operation calls = [record.input]
  kept : ∃ report, response.report = some report ∧
    completionsOf h.operation report.records = [record]
  performed : ∃ action world after, .performed action record.input world ∈ calls ∧
    app.engine.registry.nameOf action = h.operation ∧
    app.engine.registry.perform action record.input world = (.ok record.output, after)
  depth : record.depth = 1
  input : record.input = h.passes (.string user) fields
  failed : ∀ error, record.output.get? "error" = some error →
    response.body = .object (Payload.single "error" error) ∧ response.status = 400
  succeeded : record.output.get? "error" = none →
    (∀ e ∈ h.answers,
      ((if h.fromOutput then record.output else record.input).get? e.2).isSome = true) ∧
    response.body = .object (Table.ofList (h.success record.input record.output)) ∧
      response.status = 200

/-- A call that no handler serves: nothing is performed but for the request itself. -/
structure Unhandled (app : App) (h : Handler) (calls : List (Activity TravelWorld))
    (response : GatewayResponse) : Prop where
  calls : ∀ action input world, .performed action input world ∈ calls →
    app.engine.registry.nameOf action ∈ ["Requesting.request", "Requesting.respond"]
  body : response.body = .object (Table.ofList (unhandled h.path))
  status : response.status = 404

variable {config : AppConfig} {app : App} {stage : AppStage} {h : Handler} {path user : String}
  {fields : Payload}

private theorem IsBuilt.isRequested (happ : app.IsBuilt config) (hh : h ∈ handlers)
    (hpath : app.gateway.config.stripBase path = h.path) : app.IsRequested path := by
  have hexcluded : ∀ h ∈ handlers, h.path ∈ exclusions := by decide +kernel
  exact happ.isRequested_of_exclusion (hpath ▸ hexcluded h hh)

theorem handled_of_given (hbuild : build config = .ok app) (hreach : app.Reachable stage)
    (hdeep : 1 ≤ config.engine.maxDepth) (hh : h ∈ handlers)
    (hpath : app.gateway.config.stripBase path = h.path)
    (huser : verifiedUser? (.object fields) stage = some user)
    (hgiven : ∀ field ∈ h.given, (fields.get? field).isSome = true) :
    ∃ opened e others root l last f action child rest q,
      app.ServesCall path fields stage opened e others root l last f ∧
      Handled app h (h.passes (.string user) fields) root l action child rest q := by
  have happ := isBuilt hbuild
  obtain ⟨opened, e, others, root, l, last, f, hcall⟩ :=
    serves_requested hbuild hreach hdeep (happ.isRequested hh hpath) fields
  have hserves := hcall.serves
  rw [hpath, huser] at hserves
  obtain ⟨hroute, hcaller, hothers⟩ := get?_requestInput hh fields user
  have haccepts : h.Accepts (Gateway.requestInput h.path fields (some user)) :=
    ⟨hroute, fun field hfield => hothers field hfield ▸ hgiven field hfield, _, hcaller, nofun⟩
  obtain ⟨action, value, child, rest, q, hvalue, hhandled⟩ :=
    happ.handled_of_accepts hdeep hh hcall.course hserves haccepts
  obtain rfl := Option.some.inj (hcaller.symm.trans hvalue)
  rw [passes_requestInput hh] at hhandled
  exact ⟨opened, e, others, root, l, last, f, action, child, rest, q, hcall, hhandled⟩

theorem handles_of_given (hbuild : build config = .ok app) (hreach : app.Reachable stage)
    (hdeep : 2 ≤ config.engine.maxDepth) (hh : h ∈ handlers)
    (hpath : app.gateway.config.stripBase path = h.path)
    (huser : verifiedUser? (.object fields) stage = some user)
    (hgiven : ∀ field ∈ h.given, (fields.get? field).isSome = true) :
    ∃ response record, (app.handle path (.object fields) stage).1 = .ok response ∧
      app.Handles h user fields (app.activities path (.object fields) stage) response record := by
  have happ := isBuilt hbuild
  obtain ⟨opened, e, others, root, l, last, f, action, child, rest, q, hcall, hhandled⟩ :=
    handled_of_given hbuild hreach (Nat.le_of_lt hdeep) hh hpath huser hgiven
  have hserves := hcall.serves
  rw [hpath, huser] at hserves
  obtain ⟨hroute, _, _⟩ := get?_requestInput hh fields user
  obtain ⟨ended, first, later, more, hdrained, hfirst, hbody, hkept, hmore⟩ :=
    happ.drained_of_handled hdeep hh hserves hroute hhandled
  obtain ⟨hreenters, -, hne⟩ := not_mem_consequences h hh
  obtain ⟨report, hresponse, hreport⟩ := hcall.answered ended first later hdrained hfirst
  have hcompletions : completionsOf h.operation ended.records = [child] := by
    have hopening : root.action = "Requesting.request" :=
      hserves.opened.action.trans (Registry.nameOf_of_action happ.request)
    have hnone : completionsOf h.operation more = [] :=
      List.filter_eq_nil_iff.mpr fun r hr heq => hreenters (beq_iff_eq.mp heq ▸ hmore r hr)
    rw [hkept, completionsOf_append, hnone, List.append_nil]
    simp [completionsOf, hopening, hne.symm, hhandled.name]
  have hcalls := hcall.callsOf_eq (fun _ input world hname => by
    obtain ⟨output, after, hperform, _⟩ := happ.delivers hh hname input world
    exact ⟨output, after, hperform⟩ : app.engine.registry.Completes h.operation)
  rw [hdrained, hcompletions] at hcalls
  obtain ⟨world, hperformed, hperform⟩ := hhandled.performed
  refine ⟨_, child, hresponse, hcalls, ⟨report, rfl, ?_⟩,
    ⟨action, world, q.stage.world, ?_, Registry.nameOf_of_action hhandled.invokes, ?_⟩, ?_, ?_,
    fun error herror => ?_, fun herror => ?_⟩
  · rw [hreport, hcompletions]
  · rw [hcall.activities, hhandled.input]
    exact List.mem_cons_of_mem _ hperformed
  · rw [hhandled.input]
    exact hperform
  · rw [hhandled.childOf.depth, hserves.opened.isRoot.depth]
  · exact hhandled.input
  · rw [hbody, Handler.answered, herror]
    exact ⟨rfl, status_error error _ _⟩
  · rw [hbody, Handler.answered, herror]
    refine ⟨?_, rfl, status_success hh _ _ _ _⟩
    rcases hhandled.completed with ⟨message, hfailed⟩ | ⟨_, hthere⟩
    · rw [hfailed] at herror
      cases herror
    · exact hthere

theorem unhandled_of_missing (hbuild : build config = .ok app)
    (hreach : app.Reachable stage) (hdeep : 1 ≤ config.engine.maxDepth) (hh : h ∈ handlers)
    (hpath : app.gateway.config.stripBase path = h.path)
    (huser : verifiedUser? (.object fields) stage = some user)
    (hmissing : ∃ field ∈ h.given, fields.get? field = none) :
    ∃ response, (app.handle path (.object fields) stage).1 = .ok response ∧
      app.Unhandled h (app.activities path (.object fields) stage) response := by
  have happ := isBuilt hbuild
  have hengine := happ.answering hdeep
  obtain ⟨opened, e, others, root, l, last, f, -, hserves, _, hactivities, -, hanswers⟩ :=
    serves_requested hbuild hreach hdeep (happ.isRequested hh hpath) fields
  rw [hpath, huser] at hserves hactivities
  obtain ⟨hroute, hcaller, hothers⟩ := get?_requestInput hh fields user
  obtain ⟨field, hfield, hnone⟩ := hmissing
  have hexpecting := happ.expecting_unhandled hdeep hh hserves hroute ⟨_, hcaller, nofun⟩
    ⟨field, hfield, (hothers field hfield).trans hnone⟩
  have hsettles : app.engine.Settles h.path [] :=
    happ.settles_nil _
  obtain ⟨ended, first, later, more, hdrain, hfirst, hinput, _, _, hperformed⟩ :=
    hexpecting.drained hengine hsettles
  have hdrained := (Loop.drain_of_reaches (.single hserves.opened.turn.1)).trans hdrain
  obtain ⟨report, hresponse, _⟩ := hanswers ended first later hdrained hfirst
  have hbody := hinput.symm ▸ erase_unhandled e.id h.path
  refine ⟨_, hresponse, fun action input world hcall => ?_, ?_, ?_⟩
  · rw [hactivities] at hcall
    rcases List.mem_cons.mp hcall with heq | hlater
    · cases heq
      exact (Registry.nameOf_of_action happ.request).symm ▸ List.mem_cons_self ..
    · rw [hserves.opened.turn.2] at hlater
      exact List.mem_cons_of_mem _ (hperformed action input world hlater)
  · rw [hbody]
  · rw [hbody]
    exact status_unhandled h.path _ _

/-- In every state that the application can reach, a call on the route of a handler by a verified
user is handled if it has the handler's fields, and is answered as unhandled if it has not. -/
theorem handles_faithfully (hbuild : build config = .ok app) (hreach : app.Reachable stage)
    (hdeep : 2 ≤ config.engine.maxDepth) (hh : h ∈ handlers)
    (hpath : app.gateway.config.stripBase path = h.path)
    (huser : verifiedUser? (.object fields) stage = some user) :
    ∃ response, (app.handle path (.object fields) stage).1 = .ok response ∧
      ((∀ field ∈ h.given, (fields.get? field).isSome = true) → ∃ record,
        app.Handles h user fields (app.activities path (.object fields) stage) response record) ∧
      ((∃ field ∈ h.given, fields.get? field = none) →
        app.Unhandled h (app.activities path (.object fields) stage) response) := by
  by_cases hmissing : ∃ field ∈ h.given, fields.get? field = none
  · obtain ⟨response, hresponse, hunhandled⟩ :=
      unhandled_of_missing hbuild hreach (Nat.le_of_lt hdeep) hh hpath huser hmissing
    refine ⟨response, hresponse, fun hgiven => ?_, fun _ => hunhandled⟩
    obtain ⟨field, hfield, hnone⟩ := hmissing
    simpa [hnone] using hgiven field hfield
  · have hgiven : ∀ field ∈ h.given, (fields.get? field).isSome = true := fun field hfield =>
      Option.isSome_iff_ne_none.mpr fun hnone => hmissing ⟨field, hfield, hnone⟩
    obtain ⟨response, record, hresponse, hhandles⟩ :=
      handles_of_given hbuild hreach hdeep hh hpath huser hgiven
    exact ⟨response, hresponse, fun _ => ⟨record, hhandles⟩, fun h => absurd h hmissing⟩

def newTrip (session : String) : Payload :=
  [("dateRange", .object [("end", .string "2025-01-08"), ("start", .string "2025-01-01")]),
    ("destination", .string "Italy"), ("name", .string "Rome"), ("session", .string session)]

/-- The first call of all after a user opened a session, for a new trip, is handled. -/
theorem handles_newTrip :
    ∃ app session, build {} = .ok app ∧ (login "alice" (.start 0)).1 = .ok session ∧
      app.Reachable (login "alice" (.start 0)).2 ∧
      app.gateway.config.stripBase "/api/TripPlanning/create" = createTrip.path ∧
      verifiedUser? (.object (newTrip session)) (login "alice" (.start 0)).2 = some "alice" ∧
      ∃ response record, (app.handle "/api/TripPlanning/create" (.object (newTrip session))
          (login "alice" (.start 0)).2).1 = .ok response ∧
        app.Handles createTrip "alice" (newTrip session)
          (app.activities "/api/TripPlanning/create" (.object (newTrip session))
            (login "alice" (.start 0)).2) response record := by
  obtain ⟨app, hbuild⟩ := build_default
  have hreach : app.Reachable (login "alice" (.start 0)).2 := .login "alice" (.start 0)
  have hpath : app.gateway.config.stripBase "/api/TripPlanning/create" = createTrip.path := by
    rw [(isBuilt hbuild).settings]
    decide
  have huser : verifiedUser? (.object (newTrip (Uuid.issue .item 1).text))
      (login "alice" (.start 0)).2 = some "alice" := by
    decide +kernel
  obtain ⟨response, hresponse, hhandles, _⟩ :=
    handles_faithfully hbuild hreach (by decide) (List.mem_cons_self ..) hpath huser
  obtain ⟨record, hrecord⟩ := hhandles (by decide)
  exact ⟨app, _, hbuild, rfl, hreach, hpath, huser, response, record, hresponse, hrecord⟩

end App

end Travel

end ConceptSync
