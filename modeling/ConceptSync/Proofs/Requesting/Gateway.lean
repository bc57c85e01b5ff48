import ConceptSync.Proofs.Engine.Outside
import ConceptSync.Requesting.Gateway

set_option autoImplicit false
set_option relaxedAutoImplicit false

/-!
The run that a call of the gateway starts. A call invokes one action from outside or none, on the
stage that the lookup of its session left; its report and the records come from that run alone.
-/

namespace ConceptSync

namespace Gateway

variable {κ π : Type}

def directInput (body : Payload) (user : Option String) : Payload :=
  match user with
  | some user => body.insert "user" (.string user)
  | none => body

def directAction? (g : Gateway κ) (route : String) : Option ActionId :=
  ((operationFor? route).bind g.engine.registry.lookup).filter fun id =>
    decide (g.engine.registry.kind? id = some .action)

def invocation? (g : Gateway κ) (path : String) (body : Payload) (stage : Stage (World κ) π) :
    Option (ActionId × Payload × Stage (World κ) π) :=
  let route := g.config.stripBase path
  match onWorld (g.resolveUser body) stage with
  | (.error _, _) => none
  | (.ok user, stage) =>
    match g.routes.justification? (g.config.baseUrl ++ route) with
    | some _ => (g.directAction? route).map fun action => (action, directInput body user, stage)
    | none => some (g.requestAction, requestInput route body user, stage)

theorem store_onWorld {α : Type} (e : Effect (World κ) α) (stage : Stage (World κ) π) :
    (onWorld e stage).2.store = stage.store := by
  unfold onWorld
  split <;> rfl

theorem store_of_invocation {g : Gateway κ} {path : String} {body : Payload}
    {stage : Stage (World κ) π} {i : ActionId × Payload × Stage (World κ) π}
    (h : g.invocation? path body stage = some i) : i.2.2.store = stage.store := by
  have hstore := store_onWorld (g.resolveUser body) stage
  unfold invocation? at h
  rcases hresolve : onWorld (g.resolveUser body) stage with ⟨resolved, opened⟩
  rw [hresolve] at h hstore
  cases resolved with
  | error halt => cases h
  | ok user =>
    simp only at h
    split at h
    · obtain ⟨_, _, rfl⟩ := Option.map_eq_some_iff.mp h
      exact hstore
    · cases h
      exact hstore

/-- How serving a call went, told by the run it started, if it started one. -/
structure Serves (g : Gateway κ) (run? : Option (Except Halt Report × Stage (World κ) π))
    (stage : Stage (World κ) π) (served : Except Halt GatewayResponse × Stage (World κ) π) :
    Prop where
  report : ∀ response, served.1 = .ok response →
    response.report = run?.bind fun run => run.1.toOption
  halt : ∀ run halt, run? = some run → run.1 = .error halt → served.1 = .error halt
  store : served.2.store = (run?.map fun run => run.2.store).getD stage.store

namespace Serves

variable {g : Gateway κ} {stage after served : Stage (World κ) π}

private theorem without_run {result : Except Halt GatewayResponse}
    (hreport : ∀ response, result = .ok response → response.report = none)
    (hstore : served.store = stage.store) : g.Serves none stage (result, served) :=
  ⟨hreport, fun _ _ h => (nomatch h), hstore⟩

private theorem of_halt (halt : Halt) :
    g.Serves (some (.error halt, after)) stage (.error halt, after) :=
  ⟨fun _ h => (nomatch h), fun _ _ hrun h => by (cases hrun; cases h; rfl), rfl⟩

private theorem of_report {report : Report} {result : Except Halt GatewayResponse}
    (hreport : ∀ response, result = .ok response → response.report = some report)
    (hstore : served.store = after.store) :
    g.Serves (some (.ok report, after)) stage (result, served) :=
  ⟨hreport, fun _ _ hrun h => by (cases hrun; cases h), hstore⟩

end Serves

variable [RecordKeeper π]

def activities (g : Gateway κ) (path : String) (body : Payload) (stage : Stage (World κ) π) :
    List (Activity (World κ)) :=
  (g.invocation? path body stage).elim [] fun i => g.engine.activities i.1 i.2.1 i.2.2

private theorem passthrough_serves (g : Gateway κ) (route : String) (body : Payload)
    (user : Option String) (stage : Stage (World κ) π) :
    g.Serves ((g.directAction? route).map fun action =>
        g.engine.invoke action (directInput body user) stage) stage
      (g.passthrough route body user stage) := by
  have hnone (hdirect : g.directAction? route = none) :
      g.Serves ((g.directAction? route).map fun action =>
        g.engine.invoke action (directInput body user) stage) stage
        (.ok (noOperation route), stage) := by
    rw [hdirect]
    exact .without_run (fun _ h => by cases h; rfl) rfl
  unfold passthrough
  simp only
  split
  · next hroute => exact hnone (by simp [directAction?, hroute])
  · next qualified hroute =>
    split
    · next hlookup => exact hnone (by simp [directAction?, hroute, hlookup])
    · next id hlookup =>
      split
      · next hkind =>
        have hdirect : g.directAction? route = some id := by
          simp [directAction?, hroute, hlookup, hkind]
        rw [hdirect, Option.map_some]
        split
        · next report after hinvoke =>
          rw [show g.engine.invoke id (directInput body user) stage = _ from hinvoke]
          exact .of_report (fun _ h => by cases h; rfl) rfl
        · next halt after hinvoke =>
          rw [show g.engine.invoke id (directInput body user) stage = _ from hinvoke]
          exact .of_halt halt
      · next hkind =>
        have hdirect : g.directAction? route = none := by
          simp [directAction?, hroute, hlookup, hkind]
        split
        · exact hnone hdirect
        · rw [hdirect]
          split
          · next rows asked hquery =>
            have hstore := congrArg (fun served => served.2.store) hquery
            rw [store_onWorld] at hstore
            exact .without_run (fun _ h => by cases h; rfl) hstore.symm
          · next halt asked hquery =>
            have hstore := congrArg (fun served => served.2.store) hquery
            rw [store_onWorld] at hstore
            exact .without_run (fun _ h => nomatch h) hstore.symm
      · next hkind => exact hnone (by simp [directAction?, hroute, hlookup, hkind])

private theorem request_serves (g : Gateway κ) (route : String) (body : Payload)
    (user : Option String) (stage : Stage (World κ) π) :
    g.Serves (some (g.engine.invoke g.requestAction (requestInput route body user) stage)) stage
      (g.request route body user stage) := by
  unfold request
  rcases g.engine.invoke g.requestAction (requestInput route body user) stage with ⟨result, after⟩
  cases result with
  | error halt => exact .of_halt halt
  | ok report =>
    simp only
    cases report.root?.bind fun record => record.output.string? "request" with
    | none => exact .of_report (fun _ h => by cases h; rfl) rfl
    | some id =>
      have hstore := store_onWorld (World.awaitResponse g.config.timeout id) after
      simp only
      rcases hwait : onWorld (World.awaitResponse g.config.timeout id) after with ⟨answer, waited⟩
      rw [hwait] at hstore
      cases answer with
      | ok response => exact .of_report (fun _ h => by cases h; rfl) hstore
      | error halt => exact .of_report (fun _ h => nomatch h) hstore

theorem handle_serves (g : Gateway κ) (path : String) (body : Payload) (stage : Stage (World κ) π) :
    g.Serves ((g.invocation? path body stage).map fun i => g.engine.invoke i.1 i.2.1 i.2.2) stage
      (g.handle path body stage) := by
  have hstore := store_onWorld (g.resolveUser body) stage
  unfold handle invocation?
  rcases hresolve : onWorld (g.resolveUser body) stage with ⟨resolved, opened⟩
  rw [hresolve] at hstore
  cases resolved with
  | error halt => exact .without_run (fun _ h => nomatch h) hstore
  | ok user =>
    simp only
    cases g.routes.justification? (g.config.baseUrl ++ g.config.stripBase path) with
    | some reason =>
      obtain ⟨hreport, hhalt, hafter⟩ :=
        g.passthrough_serves (g.config.stripBase path) body user opened
      simp only [Option.map_map]
      exact ⟨hreport, hhalt, hstore ▸ hafter⟩
    | none =>
      obtain ⟨hreport, hhalt, hafter⟩ := g.request_serves (g.config.stripBase path) body user opened
      exact ⟨hreport, hhalt, hafter⟩

end Gateway

end ConceptSync
