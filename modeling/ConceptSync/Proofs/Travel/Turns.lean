import ConceptSync.Proofs.Requesting.Answering
import ConceptSync.Proofs.Travel.Identity

set_option autoImplicit false
set_option relaxedAutoImplicit false

/-!
Runs that a few turns are enough for. They are computed turn by turn, which reaches stages of the
application, and tells what a call on them performs.
-/

namespace ConceptSync

namespace Travel

namespace App

variable {app : App} {turns : Nat} {input fields : Payload} {path : String} {stage after : AppStage}

theorem build_of_toOption {config : AppConfig} (h : (build config).toOption = some app) :
    build config = .ok app := by
  revert h
  cases build config with
  | error e => nofun
  | ok app' => exact fun heq => congrArg Except.ok (Option.some.inj heq)

def invokedWithin? (app : App) (turns : Nat) (action : ActionId) (input : Payload)
    (stage : AppStage) : Option AppStage := do
  let l ← Run.opening app.engine action input (Run.start stage none)
  match ← l.run app.engine turns with
  | (.ok (), ended) => some (Run.finish ended).2
  | (.error _, _) => none

theorem invoke_of_within {action : ActionId}
    (h : app.invokedWithin? turns action input stage = some after) :
    (app.engine.invoke action input stage).2 = after := by
  obtain ⟨l, hopening, h⟩ := Option.bind_eq_some_iff.mp h
  obtain ⟨⟨result, ended⟩, hrun, h⟩ := Option.bind_eq_some_iff.mp h
  cases result with
  | error halt => cases h
  | ok =>
    rw [Engine.invoke_of_drained hopening (Loop.of_run hrun).1]
    exact Option.some.inj h

def calledWithin? (app : App) (turns : Nat) (concept action : String) (input : Payload)
    (stage : AppStage) : Option AppStage := do
  let action ← (app.engine.registry.action concept action).toOption
  app.invokedWithin? turns action input stage

theorem Reachable.called (hreach : app.Reachable stage) {concept action : String}
    (h : app.calledWithin? turns concept action input stage = some after) :
    app.Reachable after := by
  obtain ⟨action, -, h⟩ := Option.bind_eq_some_iff.mp h
  exact invoke_of_within h ▸ hreach.invoke action input

def activitiesWithin? (app : App) (turns : Nat) (path : String) (fields : Payload)
    (stage : AppStage) : Option (List (Activity TravelWorld)) := do
  let i ← app.gateway.invocation? path fields stage
  let l ← Run.opening app.engine i.1 i.2.1 (Run.start i.2.2 none)
  let _ ← l.run app.engine turns
  return (l.historyWithin app.engine turns).flatMap fun done =>
    done.1.activities app.engine done.2

theorem mem_activities_of_within {calls : List (Activity TravelWorld)}
    (h : app.activitiesWithin? turns path fields stage = some calls) {call : Activity TravelWorld}
    (hcall : call ∈ calls) : call ∈ app.activities path (.object fields) stage := by
  obtain ⟨i, hinvocation, h⟩ := Option.bind_eq_some_iff.mp h
  obtain ⟨l, hopening, h⟩ := Option.bind_eq_some_iff.mp h
  obtain ⟨_, hrun, h⟩ := Option.bind_eq_some_iff.mp h
  obtain rfl := Option.some.inj h
  rw [← (Loop.of_run hrun).2] at hcall
  obtain ⟨_, _, _, _, _, hkind, _⟩ := Run.opening_cases hopening
  change call ∈ Option.elim _ _ _
  rw [hinvocation]
  exact Engine.mem_activities.mpr ⟨hkind, .inr ⟨l, hopening, hcall⟩⟩

end App

end Travel

end ConceptSync
