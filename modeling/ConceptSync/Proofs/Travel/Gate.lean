import ConceptSync.Proofs.Engine.Keeping
import ConceptSync.Proofs.Travel.Answering
import ConceptSync.Proofs.Travel.Responding

set_option autoImplicit false
set_option relaxedAutoImplicit false

/-!
The gate before all handlers. Where a call on a route for users alone has no verified user, the
first rule of all answers it as unauthorized. What other rules answer comes later and is refused,
and nothing is passed on, whatever user the caller claims to be.
-/

namespace ConceptSync

namespace Travel

def unauthorized : List (String × Value) :=
  [("error", .string "Unauthorized"), ("status", .ofInt 401)]

section Rules

variable {registry : Registry TravelWorld} {rule : Rule TravelWorld} {input output : Payload}

private theorem unify_nobody (opening : ActionId) {request path user : Var}
    (hvars : [path, user, request].Nodup) {route : String}
    (hpath : input.get? "path" = some (.string route)) (huser : input.get? "user" = some .null)
    (id : String) :
    ∃ f, (withOutputs (withInputs (.of opening) [("path", path), ("user", user)])
        [("request", request)]).unify? opening input (.single "request" (.string id)) = some f ∧
      f.get? path = some (.string route) ∧ f.get? user = some .null ∧
      f.get? request = some (.string id) := by
  let p := withOutputs (withInputs (.of opening) [("path", path), ("user", user)])
    [("request", request)]
  have hinput : p.input.Perm [("path", .var path), ("user", .var user)] := by
    rw [show p.input = _ from (action_withOutputs _ _).2]
    exact perm_withInputs (by simp) (by simp [Pattern.of, Table.keys])
  have houtput : p.output.Perm [("request", .var request)] := .refl _
  obtain ⟨f, hunify, hin, hout, -⟩ := Pattern.unify?_of_fields
    (.single "request" (.string id)) hinput houtput rfl hvars
    (Template.admits_var path hpath (Template.admits_var user huser (Template.admits_nil input)))
    (Template.admits_var request rfl (Template.admits_nil _))
  exact ⟨f, hunify, (hin "path" path (by simp)).trans hpath,
    (hin "user" user (by simp)).trans huser, hout "request" request (by simp)⟩

private theorem gives_unauthorized {opening : ActionId}
    (hopening : registry.action "Requesting" "request" = .ok opening)
    (hbuilds : requireUser.Builds registry rule) {route : String}
    (hroute : requiresUser route = true) (hpath : input.get? "path" = some (.string route))
    (huser : input.get? "user" = some .null) (id : String) :
    ∃ p f, rule.clauses.whenPatterns = [p] ∧
      p.unify? opening input (.single "request" (.string id)) = some f ∧
      rule.Gives registry [f] id (Table.ofList (("request", .string id) :: unauthorized)) := by
  refine hbuilds.elim_three rfl (by decide) fun request path user hpathVar huserVar hne => ?_
  refine ensures_actionPattern fun opening' hopening' => ?_
  refine ensures_respond fun respond hrespond => .pure ?_
  intro rule hclauses
  obtain rfl : opening' = opening := Except.ok.inj (hopening'.symm.trans hopening)
  obtain ⟨f, hunify, hfpath, hfuser, hfrequest⟩ := unify_nobody opening'
    (by simp [hpathVar, huserVar, hne.symm] : [path, user, request].Nodup) hpath huser id
  refine ⟨_, f, by rw [hclauses], hunify, fun world _ => ⟨f, respond, ?_, ?_, ?_⟩⟩
  · have hstopped : ((f.text? path).any requiresUser && !f.isPresent user) = true := by
      simp [Frame.text?, hfpath, Value.asString?, hroute, Frame.isPresent, hfuser, Value.isNull]
    have hleft : [f].filter (fun f => (f.text? path).any requiresUser && !f.isPresent user) =
        [f] := by simp [hstopped]
    simp only [refine, hclauses, hleft]
    rfl
  · have hsaid : List.Forall₂ (Frame.Says f) [("request", request)] [("request", .string id)] :=
      .cons ⟨rfl, hfrequest⟩ .nil
    have hresolve := resolve_withInputs (p := .of respond) (t := []) rfl hsaid
    have herror : f.resolveTerm (.literal (.string "Unauthorized")) =
      .ok (.string "Unauthorized") := rfl
    have hstatus : f.resolveTerm (.literal (.ofInt 401)) = .ok (.ofInt 401) := rfl
    have hanswer := Frame.resolve_insert (Frame.resolve_insert hresolve herror "error") hstatus
      "status"
    simp only [Rule.invocations, hclauses, Frame.resolveAll, Pattern.withInput, hanswer,
      (action_withInputs _ _).1]
    rfl
  · rw [Registry.nameOf_of_action hrespond]
    rfl

private theorem idle_passOn {h : Handler} (hh : h ∈ handlers)
    (hbuilds : h.passOn.Builds registry rule) (huser : input.get? "user" = some .null)
    (action : ActionId) (output : Payload) : rule.Idle action input output := by
  have hfields := (fields_of_handler h hh).1
  obtain ⟨user, given, request, invoked, hp⟩ := passesOn_of_builds hfields.of_cons hbuilds
  refine .dropped _ hp.whenPatterns fun f hunify world => ?_
  obtain ⟨_, _, _, actual, hactual, hagrees⟩ := hp.matched hfields hunify
  obtain rfl := Option.some.inj (huser.symm.trans hactual)
  rw [hp.refine_eq, if_neg (by simp [hagrees.isPresent, Value.isNull])]

private theorem invokes_of_opening : ∀ s ∈ Source.all, "Requesting.request" ∈ s.waitsFor →
    (∃ h ∈ handlers, s = .passOn h) ∨ s.invokes = "Requesting.respond" := by
  decide +kernel

end Rules

namespace App

variable {config : AppConfig} {app : App} {stage : AppStage} {path : String} {fields : Payload}

private theorem IsBuilt.expecting_unauthorized (happ : app.IsBuilt config)
    (hdeep : 1 ≤ config.engine.maxDepth) {opened : AppStage} {input : Payload} {e : OpenRequest}
    {others : List OpenRequest} {root : Record} {l : Loop TravelWorld RecordStore}
    {last : Rule TravelWorld} {f : Frame}
    (hserves : Run.Serves app.engine app.gateway.requestAction opened input e others root l last f)
    {route : String} (hroute : requiresUser route = true)
    (hpath : input.get? "path" = some (.string route)) (huser : input.get? "user" = some .null) :
    (l.afterMatching app.engine app.gateway.requestAction root).Expecting app.engine
      app.gateway.requestAction last f root others e route []
      (Table.ofList (("request", .string e.id) :: unauthorized)) [root] := by
  have hsources : List.Forall₂ _ ([] ++ Source.requireUser :: Source.all.tail) app.engine.rules :=
    happ.sources
  obtain ⟨before, rule, after, hrules, hbefore, ⟨_, hbuilds⟩, hafter⟩ := split_of_forall₂ hsources
  obtain rfl := List.forall₂_nil_left_iff.mp hbefore
  obtain ⟨p, g, hpattern, hunify, hgives⟩ :=
    gives_unauthorized happ.request hbuilds hroute hpath huser e.id
  have hinput := hserves.opened.input
  rw [← hinput, ← hserves.output] at hunify
  have hjoins : l.progress.run.joins = [] := by rw [hserves.opened.run]; rfl
  refine hserves.expecting (happ.answering hdeep) hpath hrules (by simp) hpattern hunify hgives
    fun firing hfiring hmem => ?_
  obtain ⟨s, hs, hknown, hbuilt⟩ := exists_source hafter _ hmem
  have hs : s ∈ Source.all := List.mem_of_mem_tail hs
  have hwired := Source.wired_of_builds hknown hbuilt
  obtain ⟨_, hwaits, _⟩ := hwired.of_firing (Run.made_of_no_joins hjoins)
    (fun _ => hinput.symm ▸ hpath) hfiring
  rw [Registry.nameOf_of_action happ.request] at hwaits
  rcases invokes_of_opening s hs hwaits with ⟨h, hh, rfl⟩ | hinvokes
  · exact .inl (Run.dropped_of_idle hjoins hfiring
      (idle_passOn hh hbuilt (hinput.symm ▸ huser) _ _))
  · exact hwired.leadsTo (List.mem_singleton.mpr hinvokes) firing.2 root

private theorem erase_unauthorized (id : String) :
    (Table.ofList (("request", .string id) :: unauthorized)).erase "request" = unauthorized :=
  Table.erase_ofList_cons (by simp [unauthorized]) _

/-- A call that is turned away. The caller is told to be unauthorized, nothing but the request and
answers to it is performed and recorded, and beside the sessions no concept's state changes. -/
structure TurnsAway (app : App) (path : String) (body : Value) (stage : AppStage)
    (response : GatewayResponse) : Prop where
  told : response.body =
    .object [("error", .string "Unauthorized"), ("status", .ofInt 401)]
  status : response.status = 401
  records : ∃ report, response.report = some report ∧
    ∀ r ∈ report.records, r.action ∈ ["Requesting.request", "Requesting.respond"]
  calls : ∀ action input world, .performed action input world ∈ app.activities path body stage →
    app.engine.registry.nameOf action ∈ ["Requesting.request", "Requesting.respond"]
  state : ∃ sessions, (app.handle path body stage).2.world.state =
    { stage.world.state with sessions }

theorem IsBuilt.state_opened (happ : app.IsBuilt config) {opened : AppStage} {e : OpenRequest}
    {others : List OpenRequest} {root : Record} {l : Loop TravelWorld RecordStore}
    {last : Rule TravelWorld} {f : Frame}
    (hcall : app.ServesCall path fields stage opened e others root l last f) :
    l.progress.stage.world.state = opened.world.state := by
  have hopening := Requesting.state_request app.gateway.config
    (Gateway.requestInput (app.gateway.config.stripBase path) fields
      (verifiedUser? (.object fields) stage)) opened.world
  rw [← happ.opens] at hopening
  have hopened := hcall.serves.opened.performed
  rw [show (Run.start opened none).stage.world = opened.world from rfl] at hopened
  rwa [hopened] at hopening

theorem IsBuilt.state_of_answers (happ : app.IsBuilt config)
    (hdeep : 1 ≤ config.engine.maxDepth) {opened : AppStage} {e : OpenRequest}
    {others : List OpenRequest} {root : Record} {l : Loop TravelWorld RecordStore}
    {last : Rule TravelWorld} {f : Frame}
    (hcall : app.ServesCall path fields stage opened e others root l last f)
    (hperformed : ∀ action input world, .performed action input world ∈ l.activities app.engine →
      app.engine.registry.nameOf action ∈ ["Requesting.respond"]) :
    (app.handle path (.object fields) stage).2.world.state = opened.world.state := by
  have hengine := happ.answering hdeep
  have hdrained := hcall.course.view_drain World.state
    (fun rule hrule frames world => congrArg World.state (hengine.world_refine hrule frames world))
    fun action input world hcalled => by
      rw [hengine.responds action input
        (List.mem_singleton.mp (hperformed action input world hcalled))]
      rfl
  exact hcall.state.trans (hdrained.trans (happ.state_opened hcall))

theorem turnsAway_of_exclusion (hbuild : build config = .ok app) (hreach : app.Reachable stage)
    (hdeep : 1 ≤ config.engine.maxDepth) (hpath : config.requesting.stripBase path ∈ exclusions)
    (hnobody : verifiedUser? (.object fields) stage = none) :
    ∃ response, (app.handle path (.object fields) stage).1 = .ok response ∧
      app.TurnsAway path (.object fields) stage response := by
  have happ := isBuilt hbuild
  have hengine := happ.answering hdeep
  rw [← happ.settings] at hpath
  obtain ⟨opened, e, others, root, l, last, f, hcall⟩ :=
    serves_requested hbuild hreach hdeep (happ.isRequested_of_exclusion hpath) fields
  have hserves := hcall.serves
  have hexpecting := happ.expecting_unauthorized hdeep hserves
    (List.contains_iff_mem.mpr hpath) (by simp [Gateway.requestInput, Table.get?_insert])
    (by simp [Gateway.requestInput, hnobody])
  have hsettles : app.engine.Settles (app.gateway.config.stripBase path) [] :=
    happ.settles_nil _
  obtain ⟨ended, first, later, more, hdrain, hfirst, hinput, hrecords, hmore, hperformed⟩ :=
    hexpecting.drained hengine hsettles
  have hdrained := (Loop.drain_of_reaches (.single hserves.opened.turn.1)).trans hdrain
  obtain ⟨report, hresponse, hreport⟩ := hcall.answered ended first later hdrained hfirst
  have hopening := Registry.nameOf_of_action happ.request
  rw [← hserves.opened.turn.2] at hperformed
  have htold := hinput.symm ▸ erase_unauthorized e.id
  refine ⟨_, hresponse, congrArg Value.object htold, ?_, ⟨report, rfl, fun r hr => ?_⟩,
    fun action input world hcalled => ?_, ?_⟩
  · rw [htold]
    rfl
  · rw [hreport, hrecords] at hr
    rcases List.mem_append.mp hr with hroot | hlater
    · obtain rfl := List.mem_singleton.mp hroot
      exact (hserves.opened.action.trans hopening).symm ▸ List.mem_cons_self ..
    · exact List.mem_cons_of_mem _ (hmore r hlater)
  · rw [hcall.activities] at hcalled
    rcases List.mem_cons.mp hcalled with heq | hlater
    · cases heq
      exact hopening.symm ▸ List.mem_cons_self ..
    · exact List.mem_cons_of_mem _ (hperformed action input world hlater)
  · rw [happ.state_of_answers hdeep hcall hperformed]
    exact hcall.lookedUp.state

theorem slash_exclusion : ∀ route ∈ exclusions,
    route.toList.head? = some '/' ∧ ¬ "/api".toList <+: route.toList := by
  decide +kernel

/-- The gate comes first: whatever the body says, a call on an excluded route is turned away if its
session resolves to nobody, with and without the default base in its path. -/
theorem turnsAway_without_user (hbuild : build config = .ok app) (hreach : app.Reachable stage)
    (hbase : config.requesting.baseUrl = "/api") (hdeep : 1 ≤ config.engine.maxDepth)
    {route : String} (hroute : route ∈ exclusions) (hpath : path = route ∨ path = "/api" ++ route)
    (hnobody : verifiedUser? (.object fields) stage = none) :
    ∃ response, (app.handle path (.object fields) stage).1 = .ok response ∧
      app.TurnsAway path (.object fields) stage response := by
  refine turnsAway_of_exclusion hbuild hreach hdeep ?_ hnobody
  obtain ⟨hslash, hbare⟩ := slash_exclusion route hroute
  rcases hpath with rfl | rfl
  · rwa [config.requesting.stripBase_of_not_prefix (hbase ▸ hbare)]
  · rwa [← hbase, config.requesting.stripBase_append hslash]

/-- Nobody creates a trip by claiming to be someone. -/
theorem turnsAway_claimedTrip :
    ∃ app response, build {} = .ok app ∧ app.Reachable (.start 0) ∧
      verifiedUser? claimedTrip (.start 0) = none ∧
      (app.handle "/api/TripPlanning/create" claimedTrip (.start 0)).1 = .ok response ∧
      app.TurnsAway "/api/TripPlanning/create" claimedTrip (.start 0) response := by
  obtain ⟨app, hbuild⟩ := build_default
  have hreach : app.Reachable (.start 0) := .start 0
  have hroute : "/TripPlanning/create" ∈ exclusions := by decide
  have hnobody : verifiedUser? claimedTrip (.start 0) = none := rfl
  obtain ⟨response, hresponse, hturned⟩ :=
    turnsAway_without_user hbuild hreach rfl (by decide) hroute (.inr rfl) hnobody
  exact ⟨app, response, hbuild, hreach, rfl, hresponse, hturned⟩

end App

end Travel

end ConceptSync
