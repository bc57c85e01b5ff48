import Mathlib.Data.List.TakeWhile
import ConceptSync.Proofs.Requesting.Exclusion
import ConceptSync.Proofs.Travel.Rules
import ConceptSync.Travel.App

set_option autoImplicit false
set_option relaxedAutoImplicit false

/-!
The travel application as it is built, the states it can reach, the user of a call's session, and
which actions its calls invoke from outside.
-/

namespace ConceptSync

namespace Travel

private theorem Sessions.kept_of_userOf {now : Int} {token user : String} {sessions : Sessions}
    (h : (userOf now token sessions).1 = some user) : (userOf now token sessions).2 = sessions := by
  unfold userOf at h ⊢
  cases hsession : sessions.get? token with
  | none => rfl
  | some session =>
    rw [hsession] at h
    cases hexpiry : session.expiry with
    | none => simp only [hexpiry]
    | some expiry =>
      simp only [hexpiry] at h ⊢
      split at h
      · cases h
      · next hgoes => rw [if_neg hgoes]

namespace App

/-- What building the application puts together. -/
structure IsBuilt (config : AppConfig) (app : App) : Prop where
  settings : app.gateway.config = config.requesting
  routes : app.gateway.routes = routeTable config.requesting.baseUrl
  sessions : app.gateway.sessions = some (Sessions.resolve State.sessionsPart)
  limits : app.engine.config = config.engine
  request : app.engine.registry.action "Requesting" "request" = .ok app.gateway.requestAction
  entries : app.engine.registry.entries =
    (Requesting.concept config.requesting :: concepts).flatMap Concept.entries
  registered : app.engine.registry.concepts = Requesting.concept config.requesting :: concepts
  builds : List.Forall₂ (RuleDefinition.Builds app.engine.registry) Travel.rules app.engine.rules
  rules : List.Forall₂ (fun s rule => s.Shape app.engine.registry rule) Source.all app.engine.rules

theorem isBuilt {config : AppConfig} {app : App} (h : build config = .ok app) :
    app.IsBuilt config := by
  unfold build at h
  split at h
  · cases h
  · next registry hregistry =>
    split at h
    · cases h
    · next engine hengine =>
      split at h
      · cases h
      · next gateway hgateway =>
        cases h
        unfold Engine.build at hengine
        split at hengine
        · next rules hrules =>
          cases hengine
          unfold Gateway.build at hgateway
          split at hgateway
          · next request hrequest =>
            cases hgateway
            exact
              { settings := rfl
                routes := rfl
                sessions := rfl
                limits := rfl
                request := hrequest
                entries := (Registry.entries_registerAll hregistry).1
                registered := (Registry.entries_registerAll hregistry).2
                builds := Rule.builds_of_instantiateAll hrules
                rules := shapes_of_instantiateAll hrules }
          · cases hgateway
        · cases hengine

def verifiedUser? (body : Value) (stage : AppStage) : Option String :=
  ((body.field? "session").bind Value.asString?).bind fun session =>
    (userOf session stage).1.toOption.join

/-- The states that the application can reach: it serves calls, opens and looks up sessions, is
asked queries and is told to invoke actions, in any order, while time passes on all clocks. -/
inductive Reachable (app : App) : AppStage → Prop
  | start (wall : Int) : Reachable app (.start wall)
  | handle {stage : AppStage} (path : String) (body : Value) :
      Reachable app stage → Reachable app (app.handle path body stage).2
  | login {stage : AppStage} (user : String) :
      Reachable app stage → Reachable app (App.login user stage).2
  | userOf {stage : AppStage} (session : String) :
      Reachable app stage → Reachable app (App.userOf session stage).2
  | query {stage : AppStage} (concept name : String) (input : Payload) :
      Reachable app stage → Reachable app (app.query concept name input stage).2
  | invoke {stage : AppStage} (action : ActionId) (input : Payload) :
      Reachable app stage → Reachable app (app.engine.invoke action input stage).2
  | tick {stage : AppStage} (clock : Clock) (now : Timestamp) :
      Reachable app stage → Reachable app
        { stage with
          world := { stage.world with clock }
          store := { stage.store with clock := now } }

private theorem Reachable.store_of_kept (P : RecordStore → Prop) (hstart : P .empty)
    (hinvoke : ∀ (engine : Engine TravelWorld) action input (stage : AppStage),
      P stage.store → P (engine.invoke action input stage).2.store)
    (htick : ∀ s now, P s → P (s.after (.tick now))) {app : App} {stage : AppStage}
    (h : app.Reachable stage) : P stage.store := by
  induction h with
  | start wall => exact hstart
  | @handle stage path body _ ih =>
    unfold App.handle
    split
    · next fields _ =>
      rw [(app.gateway.handle_serves path fields stage).store]
      cases hinvocation : app.gateway.invocation? path fields stage with
      | none => exact ih
      | some i =>
        have hopened := Gateway.store_of_invocation hinvocation
        exact hinvoke _ i.1 i.2.1 i.2.2 (hopened ▸ ih)
    · exact ih
  | @login stage user _ ih =>
    have hstore := Gateway.store_onWorld
      (Sessions.create State.sessionsPart (.single "user" (.string user))) stage
    unfold App.login
    rcases hlogin : Gateway.onWorld
        (Sessions.create State.sessionsPart (.single "user" (.string user))) stage with
      ⟨created, after⟩
    rw [hlogin] at hstore
    have hafter : P after.store := hstore ▸ ih
    cases created with
    | error halt => exact hafter
    | ok created => cases hsession : created.string? "session" <;> simpa [hsession] using hafter
  | userOf session _ ih =>
    rw [App.userOf, Gateway.store_onWorld]
    exact ih
  | query concept name input _ ih =>
    unfold App.query
    split
    · rw [Gateway.store_onWorld]
      exact ih
    · exact ih
  | invoke action input _ ih => exact hinvoke _ action input _ ih
  | tick clock now _ ih => exact htick _ now ih

theorem Reachable.store {app : App} {stage : AppStage} (h : app.Reachable stage) :
    stage.store.Reachable :=
  h.store_of_kept RecordStore.Reachable ⟨[], rfl⟩
    (fun engine action input _ => engine.reachable_invoke action input)
    fun _ now hs => hs.after (.tick now)

/-- In a reachable state every run has settled, so no records are left. -/
theorem Reachable.no_records {app : App} {stage : AppStage} (h : app.Reachable stage) :
    stage.store.records = [] :=
  h.store_of_kept (fun s => s.records = []) rfl
    (fun engine action input _ => engine.records_invoke action input) fun _ _ hs => hs

/-- What the lookup of a session leaves as it is: everything but the sessions and the wall clock. -/
structure LookedUp (stage opened : AppStage) : Prop where
  requests : opened.world.requests = stage.world.requests
  now : opened.world.clock.now = stage.world.clock.now
  store : opened.store = stage.store
  state : ∃ sessions, opened.world.state = { stage.world.state with sessions }

namespace IsBuilt

variable {config : AppConfig} {app : App}

theorem sources (happ : app.IsBuilt config) :
    List.Forall₂ (fun s rule => s.Known ∧ s.definition.Builds app.engine.registry rule) Source.all
      app.engine.rules := by
  have hbuilds := happ.builds
  rw [← Source.definition_all, List.forall₂_map_left_iff] at hbuilds
  exact (List.forall₂_and_left _ _).mpr ⟨Source.known_of_mem, hbuilds⟩

theorem resolveUser_eq (happ : app.IsBuilt config) (fields : Payload) (stage : AppStage) :
    ∃ opened : AppStage, Gateway.onWorld (app.gateway.resolveUser fields) stage =
        (.ok (verifiedUser? (.object fields) stage), opened) ∧ LookedUp stage opened := by
  have hfields : ((Value.object fields).field? "session").bind Value.asString? =
      fields.string? "session" := rfl
  unfold Gateway.resolveUser verifiedUser?
  rw [happ.sessions, hfields]
  cases fields.string? "session" with
  | none => exact ⟨_, rfl, rfl, rfl, rfl, _, rfl⟩
  | some session => exact ⟨_, rfl, rfl, rfl, rfl, _, rfl⟩

theorem state_of_resolved (happ : app.IsBuilt config) {fields : Payload} {user : String}
    {stage opened : AppStage}
    (h : Gateway.onWorld (app.gateway.resolveUser fields) stage = (.ok (some user), opened)) :
    opened.world.state = stage.world.state := by
  unfold Gateway.resolveUser at h
  rw [happ.sessions] at h
  cases hsession : fields.string? "session" with
  | none =>
    rw [hsession] at h
    cases h
  | some session =>
    rw [hsession] at h
    obtain ⟨hfound, rfl⟩ := Prod.mk.inj h
    have huser := Except.ok.inj hfound
    exact congrArg (State.sessionsPart.set stage.world.state) (Sessions.kept_of_userOf huser)

theorem entry_of_name (happ : app.IsBuilt config) {id : ActionId}
    (h : app.engine.registry.nameOf id ≠ "<unregistered>") :
    ∃ c ∈ Requesting.concept config.requesting :: concepts, ∃ op ∈ c.operations,
      app.engine.registry.nameOf id = qualifiedName c.name op.name ∧
      ∀ input, app.engine.registry.perform id input = c.perform op.name input := by
  obtain ⟨e, he, hentry, hname⟩ := Registry.entry_of_nameOf h
  rw [happ.entries] at he
  obtain ⟨c, hc, he⟩ := List.mem_flatMap.mp he
  obtain ⟨op, hop, rfl⟩ := List.mem_map.mp he
  exact ⟨c, hc, op, hop, hname.symm, fun input => by rw [Registry.perform, hentry]⟩

private theorem nodup_names (requesting : RequestingConfig) :
    ("<unregistered>" :: ((Requesting.concept requesting :: concepts).flatMap
      Concept.entries).map Entry.qualified).Nodup := by
  have hnames : (Requesting.concept (κ := State) requesting).entries.map Entry.qualified =
      Requesting.operations.map fun op => qualifiedName Requesting.name op.name := by
    simp [Concept.entries, Requesting.concept, Function.comp_def]
  rw [List.flatMap_cons, List.map_append, hnames]
  decide +kernel

theorem perform_of_concept (happ : app.IsBuilt config) {c : Concept TravelWorld}
    (hc : c ∈ Requesting.concept config.requesting :: concepts) {op : Operation}
    (hop : op ∈ c.operations) {id : ActionId}
    (hname : app.engine.registry.nameOf id = qualifiedName c.name op.name) (input : Payload) :
    app.engine.registry.perform id input = c.perform op.name input := by
  obtain ⟨hregistered, hnodup⟩ := List.nodup_cons.mp (nodup_names config.requesting)
  rw [← happ.entries] at hregistered hnodup
  have hentry : ⟨c, op, qualifiedName c.name op.name⟩ ∈ app.engine.registry.entries := by
    rw [happ.entries]
    exact List.mem_flatMap.mpr ⟨c, hc, List.mem_map_of_mem hop⟩
  have hknown : app.engine.registry.nameOf id ≠ "<unregistered>" := fun heq =>
    hregistered (heq ▸ hname ▸ List.mem_map_of_mem (f := Entry.qualified) hentry)
  obtain ⟨e, he, hfound, hqualified⟩ := Registry.entry_of_nameOf hknown
  obtain rfl := List.inj_on_of_nodup_map hnodup he hentry (hqualified.trans hname)
  rw [Registry.perform, hfound]

theorem eq_of_nameOf (happ : app.IsBuilt config) {id id' : ActionId}
    (hknown : app.engine.registry.nameOf id ≠ "<unregistered>")
    (hname : app.engine.registry.nameOf id = app.engine.registry.nameOf id') : id = id' := by
  obtain ⟨_, hnodup⟩ := List.nodup_cons.mp (nodup_names config.requesting)
  rw [← happ.entries] at hnodup
  obtain ⟨e, he, hfound, hqualified⟩ := Registry.entry_of_nameOf hknown
  obtain ⟨e', he', hfound', hqualified'⟩ := Registry.entry_of_nameOf (hname ▸ hknown)
  obtain rfl := List.inj_on_of_nodup_map hnodup he he'
    (hqualified.trans (hname.trans hqualified'.symm))
  obtain ⟨hlt, -⟩ := List.getElem?_eq_some_iff.mp hfound
  have hindex : id.index = id'.index :=
    (List.getElem?_inj hlt (List.Nodup.of_map _ hnodup)).mp (hfound.trans hfound'.symm)
  cases id
  cases id'
  exact congrArg ActionId.mk hindex

theorem call_of_concept (happ : app.IsBuilt config) {c : Concept TravelWorld}
    (hc : c ∈ Requesting.concept config.requesting :: concepts) {name : String}
    {q : QueryHandle TravelWorld} (hq : app.engine.registry.query c.name name = .ok q) :
    q.call = c.query name := by
  have hnames : ((Requesting.concept config.requesting :: concepts).map Concept.name).Nodup := by
    change ((Requesting.concept {} :: concepts).map Concept.name).Nodup
    decide
  obtain ⟨hconcept, hname, hquery⟩ := Registry.query_ok hq
  rw [happ.registered] at hconcept
  rw [← List.inj_on_of_nodup_map hnames hconcept hc hname, ← hquery]
  rfl

theorem perform_requesting (happ : app.IsBuilt config) {id : ActionId} {action : String}
    (haction : action ∈ ["request", "respond"])
    (hname : app.engine.registry.nameOf id = qualifiedName "Requesting" action) (input : Payload) :
    app.engine.registry.perform id input = Requesting.perform config.requesting action input := by
  have hop : .action action ∈ Requesting.operations := by
    simp only [List.mem_cons, List.not_mem_nil, or_false] at haction
    rcases haction with rfl | rfl <;> decide
  exact happ.perform_of_concept (List.mem_cons_self ..) hop hname input

theorem perform_request (happ : app.IsBuilt config) (input : Payload) (world : TravelWorld) :
    ∃ output after, app.engine.registry.perform app.gateway.requestAction input world =
      (.ok output, after) := by
  rw [happ.perform_requesting (by decide) (Registry.nameOf_of_action happ.request)]
  change ∃ output after, Requesting.request config.requesting input world = (.ok output, after)
  unfold Requesting.request
  cases input.string? "path" with
  | none => exact ⟨_, _, rfl⟩
  | some path => exact ⟨_, _, rfl⟩

end IsBuilt

private theorem isSome_inclusion (base route : String) :
    ((routeTable base).inclusions.get? (base ++ route)).isSome = true ↔
      route ∈ inclusions.map Prod.fst := by
  simp only [routeTable, RouteTable.ofLists, Table.isSome_get?, Table.mem_keys_ofList,
    List.map_map, List.mem_map, Function.comp_apply, String.append_right_inj]

private theorem isSome_justification (base route : String) :
    ((routeTable base).justification? (base ++ route)).isSome = true ↔
      route ∉ exclusions ∧ route ∈ inclusions.map Prod.fst := by
  have hexcluded : base ++ route ∈ (routeTable base).exclusions ↔ route ∈ exclusions := by
    simp only [routeTable, RouteTable.ofLists, Table.mem_keys_ofList, List.mem_map]
    simp
  unfold RouteTable.justification?
  by_cases hmem : route ∈ exclusions
  · simp [hmem, hexcluded.mpr hmem]
  · rw [if_neg (by simpa using mt hexcluded.mp hmem), isSome_inclusion]
    simp [hmem]

private theorem not_suffix_of_inclusion : ∀ included ∈ inclusions.map Prod.fst,
    ∀ excluded ∈ exclusions, ¬ excluded.toList <:+ included.toList := by
  decide +kernel

theorem exclusionWins_routeTable (config : RequestingConfig) (path : String) :
    (routeTable config.baseUrl).ExclusionWins config path := by
  refine RouteTable.exclusionWins_of_not_exposes fun hexposed => ?_
  have hincluded := (isSome_inclusion _ _).mp hexposed.included
  obtain ⟨excluded, hmem, hroute⟩ :
      ∃ excluded ∈ exclusions, config.baseUrl ++ excluded = config.stripBase path := by
    simpa only [routeTable, RouteTable.ofLists, Table.mem_keys_ofList, List.mem_map,
      List.map_map, Function.comp_apply] using hexposed.excluded
  refine not_suffix_of_inclusion _ hincluded excluded hmem ⟨config.baseUrl.toList, ?_⟩
  rw [← String.toList_append, hroute]

private theorem operations_of_inclusions : ∀ route ∈ inclusions.map Prod.fst,
    (operationFor? route).all (fun name => !actsForUser name &&
      (name != "Requesting.request" || route == "/Requesting/request")) = true := by
  decide +kernel

namespace IsBuilt

variable {config : AppConfig} {app : App} {path : String} {fields : Payload} {stage : AppStage}

theorem isSome_justification_handle (happ : app.IsBuilt config) (route : String) :
    (app.gateway.routes.justification? (app.gateway.config.baseUrl ++ route)).isSome = true ↔
      route ∉ exclusions ∧ route ∈ inclusions.map Prod.fst := by
  rw [happ.routes, happ.settings]
  exact isSome_justification _ route

private theorem invocation_eq (happ : app.IsBuilt config) (path : String) (fields : Payload)
    (stage : AppStage) :
    ∃ opened : AppStage, app.gateway.invocation? path fields stage =
      if (app.gateway.routes.justification?
        (app.gateway.config.baseUrl ++ app.gateway.config.stripBase path)).isSome then
        (app.gateway.directAction? (app.gateway.config.stripBase path)).map fun action =>
          (action, Gateway.directInput fields (verifiedUser? (.object fields) stage), opened)
      else some (app.gateway.requestAction,
        Gateway.requestInput (app.gateway.config.stripBase path) fields
          (verifiedUser? (.object fields) stage), opened) := by
  obtain ⟨opened, hresolve, _⟩ := happ.resolveUser_eq fields stage
  refine ⟨opened, ?_⟩
  simp only [Gateway.invocation?, hresolve]
  cases app.gateway.routes.justification?
    (app.gateway.config.baseUrl ++ app.gateway.config.stripBase path) <;> rfl

theorem invocation_cases (happ : app.IsBuilt config)
    {i : ActionId × Payload × AppStage} (h : app.gateway.invocation? path fields stage = some i) :
    actsForUser (app.engine.registry.nameOf i.1) = false ∧
      (app.engine.registry.nameOf i.1 = "Requesting.request" →
        match verifiedUser? (.object fields) stage with
        | some user => i.2.1.get? "user" = some (.string user)
        | none => i.2.1.get? "user" = some .null ∨
            app.gateway.config.stripBase path = "/Requesting/request" ∧ i.2.1 = fields) := by
  obtain ⟨opened, heq⟩ := happ.invocation_eq path fields stage
  rw [heq] at h
  split at h
  · next hdirect =>
    obtain ⟨action, haction, rfl⟩ := Option.map_eq_some_iff.mp h
    obtain ⟨hlookup, _⟩ := Option.filter_eq_some_iff.mp haction
    obtain ⟨name, hname, hlookup⟩ := Option.bind_eq_some_iff.mp hlookup
    have hincluded := ((happ.isSome_justification_handle _).mp hdirect).2
    have hoperation := operations_of_inclusions _ hincluded
    simp only [hname, Option.all_some, Bool.and_eq_true, Bool.not_eq_true', Bool.or_eq_true,
      bne_iff_ne, beq_iff_eq] at hoperation
    have haction : app.engine.registry.nameOf action = name := Registry.nameOf_of_lookup hlookup
    simp only [haction]
    refine ⟨hoperation.1, fun hrequest => ?_⟩
    cases verifiedUser? (.object fields) stage with
    | none => exact .inr ⟨hoperation.2.resolve_left (absurd hrequest), rfl⟩
    | some user => exact Table.get?_insert_self _ _ _
  · cases h
    refine ⟨?_, fun _ => ?_⟩
    · rw [Registry.nameOf_of_action happ.request]
      decide
    · cases verifiedUser? (.object fields) stage with
      | none => exact .inl (Table.get?_insert_self _ _ _)
      | some user => exact Table.get?_insert_self _ _ _

theorem invocation_direct (happ : app.IsBuilt config)
    (hdirect : app.gateway.config.stripBase path = "/Requesting/request")
    (hunverified : verifiedUser? (.object fields) stage = none) :
    ∃ opened, app.gateway.invocation? path fields stage =
      some (app.gateway.requestAction, fields, opened) := by
  obtain ⟨opened, heq⟩ := happ.invocation_eq path fields stage
  refine ⟨opened, ?_⟩
  have hincluded := (happ.isSome_justification_handle "/Requesting/request").mpr (by decide)
  obtain ⟨hlookup, hkind⟩ := Registry.action_ok happ.request
  have hoperation : operationFor? "/Requesting/request" =
      some (qualifiedName "Requesting" "request") := by decide
  have haction : app.gateway.directAction? "/Requesting/request" =
      some app.gateway.requestAction := by
    unfold Gateway.directAction?
    rw [hoperation, Option.bind_some]
    change (app.engine.registry.lookup _).filter _ = _
    rw [hlookup]
    exact if_pos (decide_eq_true hkind)
  rw [heq, hdirect, if_pos hincluded, hunverified, haction]
  rfl

end IsBuilt

end App

end Travel

end ConceptSync
