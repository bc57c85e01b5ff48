import ConceptSync.Proofs.Engine.Provenance
import ConceptSync.Proofs.Travel.App
import ConceptSync.Proofs.Travel.Requests

set_option autoImplicit false
set_option relaxedAutoImplicit false

/-!
For whom the travel application acts. Every action for users is performed for the user of the
call's session, except when a caller without one opens the request directly and names a user there.
-/

namespace ConceptSync

namespace Travel

def admittedFor (registry : Registry TravelWorld) (user : String) : Admission where
  completion action input _ :=
    registry.nameOf action = "Requesting.request" → input.get? "user" = some (.string user)
  invocation action input :=
    registry.nameOf action ≠ "Requesting.request" ∧
      (actsForUser (registry.nameOf action) = true →
        ∀ field ∈ identityFields, ∀ value, input.get? field = some value → value = .string user)

def admittedForNobody (registry : Registry TravelWorld) : Admission where
  completion action input _ :=
    actsForUser (registry.nameOf action) = false ∧
      (registry.nameOf action = "Requesting.request" → ∀ h ∈ handlers, ¬ h.Accepts input)
  invocation action _ :=
    registry.nameOf action ≠ "Requesting.request" ∧ actsForUser (registry.nameOf action) = false

section Rules

variable {registry : Registry TravelWorld} {rule : Rule TravelWorld}

private theorem nameOf_invocation (hanswers : Answers registry rule) {f : Frame}
    {i : ActionId × Payload} (hi : i ∈ rule.invocations f) :
    registry.nameOf i.1 = "Requesting.respond" := by
  obtain ⟨p, hthen, hname⟩ := hanswers
  obtain ⟨q, hq, haction, _⟩ := Rule.mem_invocations hi
  rw [hthen] at hq
  obtain rfl := List.mem_singleton.mp hq
  rw [haction]
  exact hname

private theorem wires_invocation (hwires : Wires registry rule) {f : Frame}
    {i : ActionId × Payload} (hi : i ∈ rule.invocations f) :
    registry.nameOf i.1 ≠ "Requesting.request" ∧
      ∀ field ∈ identityFields, i.2.get? field = none := by
  obtain ⟨p, hp, haction, hresolve⟩ := Rule.mem_invocations hi
  obtain ⟨hname, hfields⟩ := hwires.thenPatterns p hp
  refine ⟨haction ▸ hname, fun field hfield => ?_⟩
  cases hvalue : i.2.get? field with
  | none => rfl
  | some value =>
    obtain ⟨term, hterm, _⟩ := Frame.mem_resolve hresolve _ (Table.mem_of_get? hvalue)
    exact absurd hfield (hfields _ hterm)

private theorem name_of_handler : ∀ h ∈ handlers,
    qualifiedName h.concept h.action ≠ "Requesting.request" := by decide

private theorem Source.confined {adm : Admission} {s : Source} (hs : s ∈ all)
    (hshape : s.Shape registry rule)
    (hanswers : ∀ action input, registry.nameOf action = "Requesting.respond" →
      adm.invocation action input)
    (hwires : Wires registry rule → rule.Confined adm)
    (hpasses : ∀ h ∈ handlers, ∀ user given request action,
      PassesOn registry h rule user given request action → rule.Confined adm) :
    rule.Confined adm := by
  have hanswering : Answers registry rule → rule.Confined adm := fun hanswering =>
    .always fun _ i hi => hanswers i.1 i.2 (nameOf_invocation hanswering hi)
  cases s with
  | passOn h =>
    obtain ⟨user, given, request, action, hp⟩ := hshape
    exact hpasses h (known_of_mem _ hs) user given request action hp
  | requireUser => exact hanswering hshape.1
  | answerSuccess _ => exact hanswering hshape.1
  | answerError _ => exact hanswering hshape.1
  | lookup _ => exact hanswering hshape.1
  | getTripsByUser => exact hanswering hshape.1
  | unhandledRequest => exact hanswering hshape
  | createItineraryForTrip => exact hwires hshape
  | createPollForEvent => exact hwires hshape
  | attachPollToEvent => exact hwires hshape
  | createExpenseForApprovedEvent => exact hwires hshape

private theorem Source.confined_for (user : String) {s : Source} (hs : s ∈ all)
    (hshape : s.Shape registry rule) : rule.Confined (admittedFor registry user) := by
  refine confined hs hshape (fun action input hname => ?_) (fun hwires => ?_)
    fun h hh var given request action hp => ?_
  · simp only [admittedFor, hname]
    exact ⟨by decide, fun hacts => absurd hacts (by decide)⟩
  · refine .always fun f i hi => ?_
    obtain ⟨hname, hnone⟩ := wires_invocation hwires hi
    refine ⟨hname, fun _ field hfield value hvalue => ?_⟩
    rw [hnone field hfield] at hvalue
    cases hvalue
  · obtain ⟨hnodup, hfields⟩ := fields_of_handler h hh
    refine .single _ hp.whenPatterns
      fun a input output f hadm hunify world left after hrefine g hg => ?_
    obtain ⟨rfl, _, _, actual, hactual, hagrees⟩ := hp.matched hnodup hunify
    rw [hadm (Registry.nameOf_of_action hp.listens)] at hactual
    cases hactual
    obtain ⟨rfl, _⟩ := hp.eq_of_left hrefine hg
    intro i hi
    obtain ⟨haction, hidentity⟩ := hp.invocation hfields hi
    refine ⟨?_, fun _ field hfield value hvalue => ?_⟩
    · rw [haction, Registry.nameOf_of_action hp.invokes]
      exact name_of_handler h hh
    · have hsays := hidentity field hfield value hvalue
      rw [hagrees.get?_string] at hsays
      exact (Option.some.inj hsays).symm

private theorem Source.confined_forNobody {s : Source} (hs : s ∈ all)
    (hshape : s.Shape registry rule) :
    rule.Confined (admittedForNobody registry) := by
  refine confined hs hshape (fun action input hname => ?_) (fun hwires => ?_)
    fun h hh var given request action hp => ?_
  · simp only [admittedForNobody, hname]
    exact ⟨by decide, by decide⟩
  · refine .never fun p hp action input output hadm => ?_
    cases hunify : p.unify? action input output with
    | none => rfl
    | some f =>
      have hacts := hwires.whenPatterns p hp
      rw [(Pattern.unify?_sound hunify).1, hadm.1] at hacts
      cases hacts
  · obtain ⟨hnodup, _⟩ := fields_of_handler h hh
    refine .single _ hp.whenPatterns
      fun a input output f hadm hunify world left after hrefine g hg => ?_
    obtain ⟨rfl, hpath, hgiven, actual, hactual, hagrees⟩ := hp.matched hnodup hunify
    obtain ⟨_, hpresent⟩ := hp.eq_of_left hrefine hg
    have hnull : actual ≠ .null := by
      rintro rfl
      rw [hagrees.isPresent] at hpresent
      cases hpresent
    exact absurd ⟨hpath, hgiven, actual, hactual, hnull⟩
      (hadm.2 (Registry.nameOf_of_action hp.listens) h hh)

end Rules

namespace App

def activities (app : App) (path : String) (body : Value) (stage : AppStage) :
    List (Activity TravelWorld) :=
  match body with
  | .object fields => app.gateway.activities path fields stage
  | _ => []

/-- Every action for users that serving a call performs is performed for the verified user: the
session of the body resolves to one, and no field for an acting user says anyone else. -/
def ActsAsVerified (app : App) (path : String) (body : Value) (stage : AppStage) : Prop :=
  ∀ action input world, .performed action input world ∈ app.activities path body stage →
    actsForUser (app.engine.registry.nameOf action) = true →
    ∃ user, verifiedUser? body stage = some user ∧
      ∀ field ∈ identityFields, ∀ value, input.get? field = some value → value = .string user

/-- A caller without a session opens the request directly, for a route that passes requests on, and
names a user in it. -/
structure ForgedRequest (app : App) (path : String) (body : Value) (stage : AppStage) : Prop where
  unverified : verifiedUser? body stage = none
  direct : app.gateway.config.stripBase path = "/Requesting/request"
  deep : 0 < app.engine.config.maxDepth
  accepted : ∃ fields, body = .object fields ∧ ∃ h ∈ handlers, h.Accepts fields

variable {config : AppConfig} {app : App} {path : String} {body : Value} {stage : AppStage}

private theorem performed_cases {fields : Payload} {action : ActionId} {input : Payload}
    {world : TravelWorld}
    (h : .performed action input world ∈ app.activities path (.object fields) stage) :
    ∃ i, app.gateway.invocation? path fields stage = some i ∧
      (action = i.1 ∨ ∃ l, Run.opening app.engine i.1 i.2.1 (Run.start i.2.2 none) = some l ∧
        .performed action input world ∈ l.activities app.engine) := by
  change _ ∈ Option.elim _ _ _ at h
  cases hinvocation : app.gateway.invocation? path fields stage with
  | none =>
    rw [hinvocation] at h
    cases h
  | some i =>
    rw [hinvocation] at h
    refine ⟨i, rfl, ?_⟩
    rcases (Engine.mem_activities.mp h).2 with heq | hloop
    · cases heq
      exact .inl rfl
    · exact .inr hloop

private theorem confined_for (happ : app.IsBuilt config) (user : String) :
    app.engine.Confined (admittedFor app.engine.registry user) where
  rules rule hrule := by
    obtain ⟨s, hs, hshape⟩ := exists_source happ.rules rule hrule
    exact s.confined_for user hs hshape
  actions _ _ hadm _ _ _ _ hrequest := absurd hrequest hadm.1

private theorem confined_forNobody (happ : app.IsBuilt config) :
    app.engine.Confined (admittedForNobody app.engine.registry) where
  rules rule hrule := by
    obtain ⟨s, hs, hshape⟩ := exists_source happ.rules rule hrule
    exact s.confined_forNobody hs hshape
  actions _ _ hadm _ _ _ _ := ⟨hadm.2, fun hrequest => absurd hrequest hadm.1⟩

private theorem actsAsVerified_of_not_forged (happ : app.IsBuilt config)
    (hnot : ¬ app.ForgedRequest path body stage) : app.ActsAsVerified path body stage := by
  intro action input world hperformed hacts
  cases body with
  | object fields =>
    obtain ⟨i, hinvocation, hcases⟩ := performed_cases hperformed
    obtain ⟨hroot, hrequest⟩ := happ.invocation_cases hinvocation
    rcases hcases with rfl | ⟨l, hopening, hloop⟩
    · rw [hroot] at hacts
      cases hacts
    · cases huser : verifiedUser? (.object fields) stage with
      | some user =>
        rw [huser] at hrequest
        have hconfined : l.Confined (admittedFor app.engine.registry user) app.engine :=
          .opening rfl hopening fun _ => hrequest
        exact ⟨user, rfl, (hconfined.performed (confined_for happ user) hloop).2 hacts⟩
      | none =>
        rw [huser] at hrequest
        -- whatever the loop performs was within the limit, so a request that is accepted is forged
        obtain ⟨_, _, _, _, _, hallowed⟩ := Loop.invoke_of_performed hloop
        have hdeep : 0 < app.engine.config.maxDepth :=
          Nat.lt_of_lt_of_le (Nat.succ_pos _) (depth_le_of_refusal hallowed)
        have hrefused : ∀ h ∈ handlers, app.engine.registry.nameOf i.1 = "Requesting.request" →
            ¬ h.Accepts i.2.1 := by
          intro h hh hname haccepts
          rcases hrequest hname with hnull | ⟨hdirect, heq⟩
          · obtain ⟨value, hvalue, hne⟩ := haccepts.user
            rw [hnull] at hvalue
            exact hne (Option.some.inj hvalue).symm
          · exact hnot ⟨huser, hdirect, hdeep, fields, rfl, h, hh, heq ▸ haccepts⟩
        have hconfined : l.Confined (admittedForNobody app.engine.registry) app.engine :=
          .opening rfl hopening fun _ => ⟨hroot, fun hname h hh => hrefused h hh hname⟩
        have hadm := hconfined.performed (confined_forNobody happ) hloop
        rw [hadm.2] at hacts
        cases hacts
  | _ => cases hperformed

private theorem performs_of_accepts (happ : app.IsBuilt config) {opened : AppStage}
    {fields : Payload} {l : Loop TravelWorld RecordStore} {h : Handler}
    (hstore : opened.store.Reachable) (hdeep : 0 < app.engine.config.maxDepth)
    (hopening : Run.opening app.engine app.gateway.requestAction fields (Run.start opened none) =
      some l) (hh : h ∈ handlers) (haccepts : h.Accepts fields) :
    ∃ action input world, app.engine.registry.action h.concept h.action = .ok action ∧
      .performed action input world ∈ l.activities app.engine := by
  obtain ⟨record, hstack, hrun, haction, hinput, hdepth, hroot⟩ :=
    Run.root_of_opening hstore hopening
  rw [← hinput] at haccepts
  obtain ⟨before, rule, after, p, f, action, value, hrules, haction', _, hidle, hpattern, hunify,
    hrefine, hinvocations, _⟩ := exists_passOn happ.sources hh happ.request haccepts record.output
  have hallowed : refusal app.engine (app.engine.registry.nameOf action)
      (h.passes value record.input) record l.progress.stage.store = .ok none := by
    refine refusal_of_root _ (hdepth ▸ hdeep) ?_ hroot
    rw [haction, Registry.nameOf_of_action happ.request, Registry.nameOf_of_action haction']
    exact (name_of_handler h hh).symm
  have hcancel : l.progress.run.cancel = none := by rw [hrun]; rfl
  have hjoins : l.progress.run.joins = [] := by rw [hrun]; rfl
  have hseen : l.progress.run.seen = [] := by rw [hrun]; rfl
  obtain ⟨world, hloop⟩ := Loop.performs_first hrules hstack hcancel hjoins hseen hidle hpattern
    hunify hrefine hinvocations hallowed
  exact ⟨action, _, world, haction', hloop⟩

private theorem not_actsAsVerified_of_forged (happ : app.IsBuilt config)
    (hreach : app.Reachable stage) (hforged : app.ForgedRequest path body stage) :
    ¬ app.ActsAsVerified path body stage := by
  obtain ⟨hunverified, hdirect, hdeep, fields, rfl, h, hh, haccepts⟩ := hforged
  obtain ⟨opened, hinvocation⟩ := happ.invocation_direct hdirect hunverified
  have hstore : opened.store.Reachable := (Gateway.store_of_invocation hinvocation) ▸ hreach.store
  have hkind := (Registry.action_ok happ.request).2
  obtain ⟨output, world, hperform⟩ := happ.perform_request fields opened.world
  obtain ⟨l, hopening⟩ := Run.opening_of_perform (p := Run.start opened none) hkind hperform
  obtain ⟨action, input, world, hinvokes, hloop⟩ :=
    performs_of_accepts happ hstore hdeep hopening hh haccepts
  intro hverified
  have hperformed : .performed action input world ∈
      app.activities path (.object fields) stage := by
    change _ ∈ Option.elim _ _ _
    rw [hinvocation]
    exact Engine.mem_activities.mpr ⟨hkind, .inr ⟨l, hopening, hloop⟩⟩
  have hacts : actsForUser (app.engine.registry.nameOf action) = true := by
    rw [Registry.nameOf_of_action hinvokes]
    exact actsForUser_of_handler h hh
  obtain ⟨user, huser, _⟩ := hverified action input world hperformed hacts
  rw [hunverified] at huser
  cases huser

/-- In every state that the application can reach, a call acts for the verified user only, unless it
is a forged request. -/
theorem actsAsVerified_iff (hbuild : build config = .ok app) (hreach : app.Reachable stage)
    (path : String) (body : Value) :
    app.ActsAsVerified path body stage ↔ ¬ app.ForgedRequest path body stage := by
  have happ := isBuilt hbuild
  constructor
  · exact fun hverified hforged => not_actsAsVerified_of_forged happ hreach hforged hverified
  · exact actsAsVerified_of_not_forged happ

def claimedTrip : Value :=
  .object
    [("dateRange", .object [("end", .string "2025-01-08"), ("start", .string "2025-01-01")]),
      ("destination", .string "Italy"), ("name", .string "Rome"),
      ("path", .string "/TripPlanning/create"), ("user", .string "mallory")]

theorem build_default : ∃ app, build {} = .ok app := by
  have hok : (match build {} with | .ok _ => true | .error _ => false) = true := by decide +kernel
  split at hok
  · next app hbuild => exact ⟨app, hbuild⟩
  · cases hok

/-- Claiming to be someone else on a route for users alone has no effect. -/
theorem actsAsVerified_claimedTrip :
    ∃ app, build {} = .ok app ∧ app.Reachable (.start 0) ∧
      app.ActsAsVerified "/api/TripPlanning/create" claimedTrip (.start 0) := by
  obtain ⟨app, hbuild⟩ := build_default
  have hreach : app.Reachable (.start 0) := .start 0
  refine ⟨app, hbuild, hreach, (actsAsVerified_iff hbuild hreach _ _).mpr fun hforged => ?_⟩
  have hdirect := hforged.direct
  rw [(isBuilt hbuild).settings] at hdirect
  exact absurd hdirect (by decide)

/-- The same claim in a request that is opened directly creates a trip for the user it names. -/
theorem not_actsAsVerified_claimedTrip :
    ∃ app, build {} = .ok app ∧ app.Reachable (.start 0) ∧
      ¬ app.ActsAsVerified "/api/Requesting/request" claimedTrip (.start 0) := by
  obtain ⟨app, hbuild⟩ := build_default
  have hreach : app.Reachable (.start 0) := .start 0
  have happ := isBuilt hbuild
  refine ⟨app, hbuild, hreach, not_actsAsVerified_of_forged happ hreach ⟨rfl, ?_, ?_, _, rfl, ?_⟩⟩
  · rw [happ.settings]
    decide
  · rw [happ.limits]
    decide
  · exact ⟨createTrip, by decide, rfl, by decide, _, rfl, nofun⟩

end App

end Travel

end ConceptSync
