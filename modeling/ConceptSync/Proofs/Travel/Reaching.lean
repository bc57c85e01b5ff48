import ConceptSync.Proofs.Engine.Keeping
import ConceptSync.Proofs.Travel.Conduct
import ConceptSync.Proofs.Travel.Resting

set_option autoImplicit false
set_option relaxedAutoImplicit false

/-!
The states that the application can reach, told by what its concepts do. Whatever the application is
called for comes to at most one invocation from outside, and rests beyond that; so what the actions
of the concepts keep, and resting keeps, holds in every reachable state.
-/

namespace ConceptSync

namespace Travel

structure Rested (stage after : AppStage) : Prop where
  world : Rests stage.world after.world
  latest : after.store.latest = stage.store.latest

private theorem Rested.refl (stage : AppStage) : Rested stage stage := ⟨.refl _, rfl⟩

private theorem AtRest.rested {α : Type} {e : Effect TravelWorld α} (h : AtRest e)
    (stage : AppStage) :
    Rested stage (Gateway.onWorld e stage).2 := by
  refine ⟨?_, congrArg RecordStore.latest (Gateway.store_onWorld e stage)⟩
  have hrests := h stage.world
  unfold Gateway.onWorld
  rcases hrun : e stage.world with ⟨a | failure | b, world⟩ <;> rw [hrun] at hrests <;>
    exact hrests

namespace App

variable {config : AppConfig} {app : App} {stage : AppStage}

namespace IsBuilt

private theorem atRest_resolveUser (happ : app.IsBuilt config) (fields : Payload) :
    AtRest (app.gateway.resolveUser fields) := by
  unfold Gateway.resolveUser
  rw [happ.sessions]
  cases fields.string? "session" with
  | none => exact .pure none
  | some session => exact .resolveSession session

private theorem passthrough_cases (happ : app.IsBuilt config) (route : String) (body : Payload)
    (user : Option String) (stage : AppStage) :
    Rested stage (app.gateway.passthrough route body user stage).2 ∨
      ∃ action input, (app.gateway.passthrough route body user stage).2 =
        (app.engine.invoke action input stage).2 := by
  unfold Gateway.passthrough
  simp only
  split
  · exact .inl (.refl stage)
  · split
    · exact .inl (.refl stage)
    · next qualified _ _ id _ =>
      split
      · refine .inr ⟨id, Gateway.directInput body user, ?_⟩
        split <;> next hinvoke => exact (congrArg Prod.snd hinvoke).symm
      · split
        · exact .inl (.refl stage)
        · next concept hconcept =>
          have hmem := List.mem_of_find?_eq_some hconcept
          rw [show app.gateway.engine.registry.concepts = _ from happ.registered] at hmem
          have hasked := (AtRest.query hmem (Text.splitQualified qualified).2
            (Gateway.directInput body user)).rested stage
          left
          split <;> next hquery => exact congrArg Prod.snd hquery ▸ hasked
      · exact .inl (.refl stage)

private theorem rested_request (route : String) (body : Payload) (user : Option String)
    (stage : AppStage) :
    Rested (app.engine.invoke app.gateway.requestAction
        (Gateway.requestInput route body user) stage).2
      (app.gateway.request route body user stage).2 := by
  unfold Gateway.request App.engine
  rcases app.gateway.engine.invoke app.gateway.requestAction
    (Gateway.requestInput route body user) stage with ⟨result, after⟩
  cases result with
  | error halt => exact .refl after
  | ok report =>
    simp only
    cases report.root?.bind fun record => record.output.string? "request" with
    | none => exact .refl after
    | some id =>
      have hwaited := (AtRest.awaitResponse app.gateway.config.timeout id).rested after
      simp only
      rcases hwait : Gateway.onWorld (World.awaitResponse app.gateway.config.timeout id) after with
        ⟨answer, waited⟩
      rw [hwait] at hwaited
      cases answer <;> exact hwaited

private theorem handle_cases (happ : app.IsBuilt config) (path : String) (fields : Payload)
    (stage : AppStage) :
    ∃ opened : AppStage, Rested stage opened ∧ opened.store = stage.store ∧
      (Rested opened (app.gateway.handle path fields stage).2 ∨ ∃ action input,
        Rested (app.engine.invoke action input opened).2
          (app.gateway.handle path fields stage).2) := by
  have hopened := (happ.atRest_resolveUser fields).rested stage
  have hstore := Gateway.store_onWorld (app.gateway.resolveUser fields) stage
  unfold Gateway.handle
  rcases hresolve : Gateway.onWorld (app.gateway.resolveUser fields) stage with ⟨resolved, opened⟩
  rw [hresolve] at hopened hstore
  refine ⟨opened, hopened, hstore, ?_⟩
  cases resolved with
  | error halt => exact .inl (.refl opened)
  | ok user =>
    simp only
    cases app.gateway.routes.justification?
        (app.gateway.config.baseUrl ++ app.gateway.config.stripBase path) with
    | some reason =>
      rcases happ.passthrough_cases (app.gateway.config.stripBase path) fields user opened with
        hrested | ⟨action, input, hinvoked⟩
      · exact .inl hrested
      · exact .inr ⟨action, input, hinvoked ▸ .refl _⟩
    | none => exact .inr ⟨_, _, rested_request _ fields user opened⟩

end IsBuilt

theorem Reachable.of_rested (happ : app.IsBuilt config) {P : AppStage → Prop}
    (hstart : ∀ wall, P (.start wall))
    (hinvoke : ∀ action input (stage : AppStage), stage.store.Reachable →
      stage.store.records = [] → P stage → P (app.engine.invoke action input stage).2)
    (hrested : ∀ stage after : AppStage, Rested stage after → P stage → P after)
    (h : app.Reachable stage) : P stage := by
  induction h with
  | start wall => exact hstart wall
  | @handle stage path body hreach ih =>
    unfold App.handle
    split
    · next fields _ =>
      obtain ⟨opened, hopened, hstore, hserved⟩ := happ.handle_cases path fields stage
      have hbefore := hrested stage opened hopened ih
      rcases hserved with hserved | ⟨action, input, hserved⟩
      · exact hrested opened _ hserved hbefore
      · exact hrested _ _ hserved (hinvoke action input opened (hstore ▸ hreach.store)
          (hstore ▸ hreach.no_records) hbefore)
    · exact ih
  | @login stage user _ ih =>
    have hcreated := (AtRest.createSession (.single "user" (.string user))).rested stage
    unfold App.login
    rcases hlogin : Gateway.onWorld
        (Sessions.create State.sessionsPart (.single "user" (.string user))) stage with
      ⟨created, after⟩
    rw [hlogin] at hcreated
    have hafter := hrested stage after hcreated ih
    cases created with
    | error halt => exact hafter
    | ok created => cases hsession : created.string? "session" <;> simpa [hsession] using hafter
  | @userOf stage session _ ih =>
    exact hrested stage _ ((AtRest.resolveSession session).rested stage) ih
  | @query stage concept name input _ ih =>
    unfold App.query
    split
    · next handle hquery =>
      obtain ⟨hconcept, _, _⟩ := Registry.query_ok hquery
      rw [happ.registered] at hconcept
      exact hrested stage _ ((AtRest.query hconcept handle.name input).rested stage) ih
    · exact ih
  | invoke action input hreach ih =>
    exact hinvoke action input _ hreach.store hreach.no_records ih
  | @tick stage clock now _ ih => exact hrested stage _ ⟨⟨⟨_, rfl⟩, Nat.le_refl _⟩, rfl⟩ ih

/-- What holds of the world at the start holds of it in every reachable state, if the actions of all
concepts keep it, for any input, and all that rests. -/
theorem Reachable.world_of_kept (happ : app.IsBuilt config) {P : TravelWorld → Prop}
    (hstart : ∀ wall, P (.start wall .empty))
    (hperform : ∀ c ∈ Requesting.concept config.requesting :: concepts, ∀ action input world,
      P world → P (c.perform action input world).2)
    (hrests : ∀ world after, Rests world after → P world → P after) (h : app.Reachable stage) :
    P stage.world := by
  have horderly := (orderly_of_forall₂ happ.operates happ.request happ.builds).1
  refine h.of_rested happ (P := fun stage => P stage.world) hstart
    (fun action input stage hstore hsettled => ?_)
    fun stage after hrested => hrests stage.world after.world hrested.world
  refine app.engine.kept_invoke (fun rule hrule frames world hworld => ?_)
    (fun id input world hworld => ?_) hstore hsettled action input
  · rcases refine_of_reads (horderly rule hrule).reads frames world with ⟨_, heq⟩ | ⟨_, heq⟩ <;>
      exact heq ▸ hworld
  · rcases happ.perform_cases id with ⟨failure, hfails⟩ | ⟨c, hc, op, _, _, hperforms⟩
    · exact hfails input ▸ hworld
    · exact hperforms input ▸ hperform c hc op.name input world hworld

end App

end Travel

end ConceptSync
