import ConceptSync.Proofs.Travel.Itineraries
import ConceptSync.Proofs.Travel.Reaching
import ConceptSync.Proofs.Travel.Turns

set_option autoImplicit false
set_option relaxedAutoImplicit false

/-!
Trips and their itineraries in all states that the application can reach.
-/

namespace ConceptSync

namespace Travel

namespace App

variable {config : AppConfig} {app : App} {stage : AppStage}

private theorem Reachable.all_planned (happ : app.IsBuilt config)
    (hdeep : 2 ≤ config.engine.maxDepth) (h : app.Reachable stage) :
    Planned (fun _ => False) stage :=
  h.of_rested happ Planned.start
    (fun action input _ hstore hsettled => planned_invoke happ hdeep action input hstore hsettled)
    fun _ _ hrested hplanned =>
      hplanned.aside hrested.world.aside (Nat.le_of_eq hrested.latest.symm)

end App

/-- Every trip has one itinerary, and no two itineraries are of one trip. -/
structure OneItineraryEach (state : State) : Prop where
  each : ∀ trip ∈ state.trips.keys, ∃ id itinerary,
    state.planner.itineraries.filter (fun e => e.2.trip == trip) = [(id, itinerary)]
  apart : (state.planner.itineraries.map fun e => e.2.trip).Nodup

private theorem Filed.each_has_one {w : TravelWorld} (h : Filed w)
    (hplanned : w.state.trips.keys ⊆ w.state.planner.planned) : OneItineraryEach w.state where
  each trip htrip := by
    obtain ⟨e, he, rfl⟩ := List.mem_map.mp (hplanned htrip)
    obtain ⟨before, after, hsplit⟩ := List.append_of_mem he
    have hnodup := h.planned
    rw [ItineraryPlanner.planned, hsplit, List.map_append, List.map_cons, List.nodup_middle,
      ← List.map_append] at hnodup
    have hothers : ∀ e' ∈ before ++ after, ¬ (e'.2.trip == e.2.trip) = true := fun e' he' heq =>
      (List.nodup_cons.mp hnodup).1 (List.mem_map.mpr ⟨e', he', beq_iff_eq.mp heq⟩)
    refine ⟨e.1, e.2, ?_⟩
    rw [hsplit, List.filter_append, List.filter_cons, if_pos (beq_self_eq_true e.2.trip),
      List.filter_eq_nil_iff.mpr fun e' he' => hothers e' (List.mem_append_left _ he'),
      List.filter_eq_nil_iff.mpr fun e' he' => hothers e' (List.mem_append_right _ he')]
    rfl
  apart := h.planned

namespace App

variable {config : AppConfig} {app : App} {stage : AppStage}

/-- In every state that the application can reach, every trip has exactly one itinerary and no two
itineraries are of one trip, whether the cycle guard is on or off. -/
theorem oneItineraryEach (hbuild : build config = .ok app) (hreach : app.Reachable stage)
    (hdeep : 2 ≤ config.engine.maxDepth) (hsupply : InSupply stage) :
    OneItineraryEach stage.world.state := by
  obtain ⟨hfiled, htrips⟩ := hreach.all_planned (isBuilt hbuild) hdeep hsupply
  exact hfiled.each_has_one fun trip htrip => (htrips trip htrip).resolve_right id

private theorem handle_direct (happ : app.IsBuilt config) {path : String} {fields : Payload}
    (hpath : config.requesting.stripBase path = "/Requesting/request")
    (hnobody : fields.string? "session" = none) (stage : AppStage) :
    (app.handle path (.object fields) stage).2 =
      (app.engine.invoke app.gateway.requestAction fields stage).2 := by
  have hresolve : Gateway.onWorld (app.gateway.resolveUser fields) stage = (.ok none, stage) := by
    unfold Gateway.resolveUser
    rw [happ.sessions, hnobody]
    rfl
  have hroute : app.gateway.config.stripBase path = "/Requesting/request" := happ.settings ▸ hpath
  obtain ⟨reason, hreason⟩ := Option.isSome_iff_exists.mp
    ((happ.isSome_justification_handle "/Requesting/request").mpr (by decide))
  have hoperation : operationFor? "/Requesting/request" = some "Requesting.request" := by decide
  obtain ⟨hlookup, hkind⟩ := Registry.action_ok happ.request
  have hlookup' : app.gateway.engine.registry.lookup "Requesting.request" = _ := hlookup
  change (app.gateway.handle path fields stage).2 = _
  simp only [Gateway.handle, hresolve, hroute, hreason, Gateway.passthrough, hoperation, hlookup',
    show app.gateway.engine.registry.kind? _ = _ from hkind]
  split <;> next hinvoke => exact (congrArg Prod.snd hinvoke).symm

private def afterClaimedTrip? : Option AppStage := do
  let app ← (build {}).toOption
  let fields ← (Payload.ofValue claimedTrip).toOption
  app.invokedWithin? 20 app.gateway.requestAction fields (.start 0)

private theorem handle_claimedTrip {after : AppStage} (h : afterClaimedTrip? = some after) :
    ∃ app, build {} = .ok app ∧
      (app.handle "/api/Requesting/request" claimedTrip (.start 0)).2 = after := by
  unfold afterClaimedTrip? at h
  obtain ⟨app, hbuild, h⟩ := Option.bind_eq_some_iff.mp h
  obtain ⟨fields, hfields, h⟩ := Option.bind_eq_some_iff.mp h
  have hbuilt := build_of_toOption hbuild
  obtain rfl := Option.some.inj hfields
  exact ⟨app, hbuilt, (handle_direct (isBuilt hbuilt) (by decide) (by decide) _).trans
    (invoke_of_within h)⟩

/-- The trip that a caller claimed for somebody else has one itinerary as well. -/
theorem oneItineraryEach_claimedTrip :
    ∃ app stage trip, build {} = .ok app ∧ app.Reachable stage ∧
      stage = (app.handle "/api/Requesting/request" claimedTrip (.start 0)).2 ∧ InSupply stage ∧
      trip ∈ stage.world.state.trips.keys ∧ OneItineraryEach stage.world.state := by
  have hstage : afterClaimedTrip?.map (fun stage =>
      (stage.world.state.trips.keys, stage.store.latest, stage.world.issued)) =
        some ([(Uuid.issue .item 2).text], 4, 3) := by decide +kernel
  obtain ⟨stage, hafter, heq⟩ := Option.map_eq_some_iff.mp hstage
  obtain ⟨hkeys, hlatest, hissued⟩ : _ ∧ _ ∧ _ := by simpa using heq
  obtain ⟨app, hbuild, hhandle⟩ := handle_claimedTrip hafter
  have hreach : app.Reachable stage := hhandle ▸ .handle _ _ (.start 0)
  have hsupply : InSupply stage := ⟨by rw [hlatest]; decide, by rw [hissued]; decide⟩
  exact ⟨app, stage, _, hbuild, hreach, hhandle.symm, hsupply,
    hkeys ▸ List.mem_singleton_self _, oneItineraryEach hbuild hreach (by decide) hsupply⟩

end App

end Travel

end ConceptSync
