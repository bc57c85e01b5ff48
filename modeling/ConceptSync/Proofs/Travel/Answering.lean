import ConceptSync.Proofs.Requesting.Serving
import ConceptSync.Proofs.Travel.Conduct
import ConceptSync.Proofs.Travel.Identity

set_option autoImplicit false
set_option relaxedAutoImplicit false

/-!
The travel application answers every requested call exactly once, by the call's own run.
-/

namespace ConceptSync

namespace Travel

namespace App

variable {config : AppConfig} {app : App} {stage : AppStage}

theorem IsBuilt.answering (happ : app.IsBuilt config) (hdeep : 1 ≤ config.engine.maxDepth) :
    app.engine.Answering app.gateway.requestAction where
  opens := Registry.nameOf_of_action happ.request
  kind := (Registry.action_ok happ.request).2
  orderly := (orderly_of_forall₂ happ.operates happ.request happ.builds).1
  fallsBack := (orderly_of_forall₂ happ.operates happ.request happ.builds).2
  responds _ input hname :=
    happ.perform_requesting (show "respond" ∈ ["request", "respond"] by decide) hname input
  deep := happ.limits ▸ hdeep

/-- A path whose calls open a request: the gateway does not call an operation for it directly. -/
def IsRequested (app : App) (path : String) : Prop :=
  app.gateway.routes.justification?
    (app.gateway.config.baseUrl ++ app.gateway.config.stripBase path) = none

theorem IsBuilt.isRequested_of_exclusion (happ : app.IsBuilt config) {path : String}
    (hpath : app.gateway.config.stripBase path ∈ exclusions) : app.IsRequested path := by
  unfold IsRequested
  rw [← Option.not_isSome_iff_eq_none, happ.isSome_justification_handle]
  exact fun hdirect => hdirect.1 hpath

private theorem IsBuilt.handle_of_requested (happ : app.IsBuilt config) {path : String}
    (hpath : app.IsRequested path) (fields : Payload) (stage : AppStage) :
    ∃ opened : AppStage, LookedUp stage opened ∧
      Gateway.onWorld (app.gateway.resolveUser fields) stage =
        (.ok (verifiedUser? (.object fields) stage), opened) ∧
      app.handle path (.object fields) stage =
        app.gateway.request (app.gateway.config.stripBase path) fields
          (verifiedUser? (.object fields) stage) opened ∧
      app.activities path (.object fields) stage =
        app.engine.activities app.gateway.requestAction
          (Gateway.requestInput (app.gateway.config.stripBase path) fields
            (verifiedUser? (.object fields) stage)) opened := by
  obtain ⟨opened, hresolve, hlookedUp⟩ := happ.resolveUser_eq fields stage
  refine ⟨opened, hlookedUp, hresolve, ?_, ?_⟩
  · change app.gateway.handle path fields stage = _
    simp only [Gateway.handle, hresolve, show _ = none from hpath]
  · change app.gateway.activities path fields stage = _
    simp only [Gateway.activities, Gateway.invocation?, hresolve, show _ = none from hpath]
    rfl

theorem IsBuilt.opens (happ : app.IsBuilt config) (input : Payload) :
    app.engine.registry.perform app.gateway.requestAction input =
      Requesting.request app.gateway.config input := by
  rw [happ.settings]
  exact happ.perform_requesting (by decide) (Registry.nameOf_of_action happ.request) input

/-- How a requested call is served: the lookup of its session opens the stage on which its run
begins, and the caller gets the first answer that the run's records have at the end. -/
structure ServesCall (app : App) (path : String) (fields : Payload) (stage opened : AppStage)
    (e : OpenRequest) (others : List OpenRequest) (root : Record) (l : Loop TravelWorld RecordStore)
    (last : Rule TravelWorld) (f : Frame) : Prop where
  lookedUp : LookedUp stage opened
  serves : Run.Serves app.engine app.gateway.requestAction opened
    (Gateway.requestInput (app.gateway.config.stripBase path) fields
      (verifiedUser? (.object fields) stage)) e others root l last f
  course : Run.Course app.engine False [] l
  activities : app.activities path (.object fields) stage =
    .performed app.gateway.requestAction
      (Gateway.requestInput (app.gateway.config.stripBase path) fields
        (verifiedUser? (.object fields) stage)) opened.world :: l.activities app.engine
  state : (app.handle path (.object fields) stage).2.world.state =
    (drain app.engine l.stack l.progress).2.stage.world.state
  answered : ∀ q first later, drain app.engine l.stack l.progress = (.ok (), q) →
    answersOf q.records = first :: later → ∃ report,
      (app.handle path (.object fields) stage).1 =
        .ok ⟨.requested, .object (first.input.erase "request"), some report⟩ ∧
      report.records = q.records
  resolves : Gateway.onWorld (app.gateway.resolveUser fields) stage =
    (.ok (verifiedUser? (.object fields) stage), opened)

theorem ServesCall.callsOf_eq {path : String} {fields : Payload} {opened : AppStage}
    {e : OpenRequest} {others : List OpenRequest} {root : Record}
    {l : Loop TravelWorld RecordStore} {last : Rule TravelWorld} {f : Frame}
    (h : app.ServesCall path fields stage opened e others root l last f) {name : String}
    (hcompletes : app.engine.registry.Completes name) :
    callsOf app.engine.registry name (app.activities path (.object fields) stage) =
      inputs (completionsOf name (drain app.engine l.stack l.progress).2.records) := by
  have hcalls := h.course.callsOf_drain hcompletes
  rw [h.serves.records] at hcalls
  rw [h.activities, inputs, hcalls]
  by_cases hname : app.engine.registry.nameOf app.gateway.requestAction = name <;>
    simp [callsOf, completionsOf, h.serves.opened.action, h.serves.opened.input, hname]

/-- Every requested call is served so, in every state that the application can reach. -/
theorem serves_requested (hbuild : build config = .ok app) (hreach : app.Reachable stage)
    (hdeep : 1 ≤ config.engine.maxDepth) {path : String} (hpath : app.IsRequested path)
    (fields : Payload) :
    ∃ opened e others root l last f,
      app.ServesCall path fields stage opened e others root l last f := by
  have happ := isBuilt hbuild
  have hengine := happ.answering hdeep
  obtain ⟨opened, hlookedUp, hresolve, hhandle, hactivities⟩ :=
    happ.handle_of_requested hpath fields stage
  have hrecords : opened.store.records = [] := hlookedUp.store ▸ hreach.no_records
  have hreachable : opened.store.Reachable := hlookedUp.store ▸ hreach.store
  obtain ⟨e, others, root, l, last, f, hserves, hanswers⟩ := Gateway.request_served hengine
    happ.opens hreachable hrecords (app.gateway.config.stripBase path) fields
    (verifiedUser? (.object fields) stage)
  have hopens : Run.opening app.engine app.gateway.requestAction _ _ = some l := hserves.opens
  refine ⟨opened, e, others, root, l, last, f, hlookedUp, hserves, ?_, ?_, ?_, hhandle ▸ hanswers,
    hresolve⟩
  · exact (Run.Course.start hreachable (by simp [hrecords])).invoke _ _ hopens
  · rw [hactivities, Engine.activities, if_pos hengine.kind, hopens]
    rfl
  · rw [hhandle, Gateway.state_request, Engine.world_invoke]
    exact congrArg (fun q => q.stage.world.state) (Run.invoke_of_opening hopens)

end App

end Travel

end ConceptSync
