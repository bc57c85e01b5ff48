import ConceptSync.Proofs.Requesting.Answering
import ConceptSync.Proofs.Requesting.Gateway
import ConceptSync.Proofs.Table

set_option autoImplicit false
set_option relaxedAutoImplicit false

/-!
A requested call from its opening to the answer that its caller gets. When the engine answers its
requests, the answer is there as soon as the run is over, and nobody waits for it.
-/

namespace ConceptSync

variable {κ : Type}

private theorem Requesting.request_eq (config : RequestingConfig) {input : Payload} {path : String}
    (hpath : input.string? "path" = some path) (world : World κ) :
    ∃ id after, request config input world = (.ok (.single "request" (.string id)), after) ∧
      after.requests.Holds
        ((world.requests.reap config.timeout world.clock.now).remove id).entries
        ⟨id, path, world.clock.now, none⟩ := by
  let table := (world.requests.reap config.timeout world.clock.now).put
    ⟨(Uuid.issue .item (world.issued + 1)).text, path, world.clock.now, none⟩
  refine ⟨(Uuid.issue .item (world.issued + 1)).text,
    { world with issued := world.issued + 1, requests := table }, ?_, RequestTable.holds_put _ _⟩
  unfold request
  simp only [hpath]
  change Effect.bind World.freshId _ world = _
  simp [Effect.bind, World.freshId, World.onRequests, Effect.step, RequestTable.request, hpath, table]

theorem Requesting.state_request (config : RequestingConfig) (input : Payload) (world : World κ) :
    (request config input world).2.state = world.state := by
  unfold request
  cases input.string? "path" with
  | none => rfl
  | some path => exact Effect.view_bind World.state (fun _ => rfl) (fun _ _ => rfl) world

private theorem World.awaitResponse_of_answered {world : World κ} {others : List OpenRequest}
    {e : OpenRequest} {response : Payload}
    (h : world.requests.Holds others { e with response := some response }) (timeout : Nat) :
    awaitResponse timeout e.id world = (.ok response, { world with requests := ⟨others⟩ }) := by
  have hcollect := h.collect timeout rfl
  unfold awaitResponse
  have hstep : World.onRequests (fun _ t => t.collect timeout e.id) world =
      (.ok (.answer response), { world with requests := ⟨others⟩ }) := by
    simp only [World.onRequests, Effect.step, hcollect]
  exact Effect.bind_of_ok hstep

private theorem World.state_awaitResponse (timeout : Nat) (id : String) (world : World κ) :
    (awaitResponse timeout id world).2.state = world.state := by
  refine Effect.view_bind state (fun _ => rfl) (fun collected w => ?_) world
  cases collected with
  | absent => rfl
  | answer response => rfl
  | pending deadline =>
    refine Effect.view_bind state (fun w => ?_) (fun _ _ => rfl) w
    unfold waitUntil
    cases w.clock.deadline with
    | none => rfl
    | some limit => by_cases hlate : limit < deadline <;> simp [hlate]

/-- How a call was served whose run opened a request and answered it once: the caller got that
answer, and of the table only this request and the expired ones are gone. -/
structure Gateway.Answered (g : Gateway κ) (stage : Stage (World κ) RecordStore)
    (calls : List (Activity (World κ)))
    (served : Except Halt GatewayResponse × Stage (World κ) RecordStore) (id : String)
    (report : Report) (first : Record) (later : List Record) : Prop where
  once : report.AnswersOnce id first later
  performed : answersIn g.engine.registry calls = inputs (answersOf report.records)
  response : served.1 =
    .ok ⟨.requested, .object (first.input.erase "request"), some report⟩
  inTime : first.input.erase "request" ≠ RequestTable.timedOut g.config.timeout
  requests : served.2.world.requests =
    (stage.world.requests.reap g.config.timeout stage.world.clock.now).remove id

private theorem IsAnswerTo.ne_timedOut {id : String} {input : Payload} (h : IsAnswerTo id input)
    (timeout : Nat) : input.erase "request" ≠ RequestTable.timedOut timeout := by
  intro heq
  have hstatus := congrArg (Table.get? · "status") heq
  simp only [Table.get?_erase_of_ne input (show "request" ≠ "status" by decide)] at hstatus
  exact h.status (hstatus.trans (Table.get?_insert_self _ _ _))

namespace Gateway

variable {g : Gateway κ} {stage after : Stage (World κ) RecordStore}

private theorem request_of_answered {route : String} {body : Payload} {user : Option String}
    {report : Report} {first : Record} {later : List Record} {others : List OpenRequest}
    {e : OpenRequest} {response : Payload}
    (hinvoke : g.engine.invoke g.requestAction (requestInput route body user) stage =
      (.ok report, after))
    (honce : report.AnswersOnce e.id first later)
    (hholds : after.world.requests.Holds others { e with response := some response }) :
    g.request route body user stage = (.ok ⟨.requested, .object response, some report⟩,
      { after with world := { after.world with requests := ⟨others⟩ } }) := by
  obtain ⟨root, hroot, _, houtput⟩ := honce.root
  have hid : report.root?.bind (fun record => record.output.string? "request") = some e.id := by
    rw [hroot, Option.bind_some, houtput]
    rfl
  have hawait := World.awaitResponse_of_answered hholds g.config.timeout
  simp only [request, hinvoke, hid, onWorld, hawait]

private theorem invoke_of_request {route : String} {body : Payload} {user : Option String}
    {kind : RouteKind} {answer : Value} {report : Report}
    (h : (g.request route body user stage).1 = .ok ⟨kind, answer, some report⟩) :
    ∃ after, g.engine.invoke g.requestAction (requestInput route body user) stage =
      (.ok report, after) := by
  unfold request at h
  rcases hinvoke : g.engine.invoke g.requestAction (requestInput route body user) stage with
    ⟨_ | report', after⟩
  · rw [hinvoke] at h
    cases h
  · simp only [hinvoke] at h
    split at h
    · cases h
      exact ⟨after, rfl⟩
    · split at h
      · cases h
        exact ⟨after, rfl⟩
      · cases h

theorem state_request (g : Gateway κ) (route : String) (body : Payload) (user : Option String)
    (stage : Stage (World κ) RecordStore) :
    (g.request route body user stage).2.world.state =
      (g.engine.invoke g.requestAction (requestInput route body user) stage).2.world.state := by
  unfold request
  rcases g.engine.invoke g.requestAction (requestInput route body user) stage with
    ⟨halt | report, after⟩
  · rfl
  · simp only
    split
    · rfl
    · next id _ =>
      have hstate := World.state_awaitResponse g.config.timeout id after.world
      unfold onWorld
      rcases hawait : World.awaitResponse g.config.timeout id after.world with ⟨outcome, waited⟩
      rw [hawait] at hstate
      cases outcome <;> exact hstate

theorem request_answered (hengine : g.engine.Answering g.requestAction)
    (hopens : ∀ input, g.engine.registry.perform g.requestAction input =
      Requesting.request g.config input)
    (hstore : stage.store.Reachable) (hsettled : stage.store.records = []) (route : String)
    (body : Payload) (user : Option String) :
    ∃ id report first later,
      g.Answered stage (g.engine.activities g.requestAction (requestInput route body user) stage)
        (g.request route body user stage) id report first later := by
  have hpath : (requestInput route body user).string? "path" = some route := by
    simp [requestInput, Payload.string?, Table.get?_insert, Value.asString?]
  obtain ⟨id, world, hrequest, hholds⟩ := Requesting.request_eq g.config hpath stage.world
  obtain ⟨report, after, first, later, hinvoke, honce, hperformed, hanswer, hanswered⟩ :=
    hengine.answers_once (e := ⟨id, route, stage.world.clock.now, none⟩) hstore
      (by simp [hsettled]) hpath ((congrFun (hopens _) _).trans hrequest) hholds
  have hserved := request_of_answered hinvoke honce hanswered
  exact ⟨id, report, first, later, honce, hperformed, congrArg Prod.fst hserved,
    hanswer.ne_timedOut _, congrArg (fun served => served.2.world.requests) hserved⟩

theorem request_served (hengine : g.engine.Answering g.requestAction)
    (hopens : ∀ input, g.engine.registry.perform g.requestAction input =
      Requesting.request g.config input)
    (hstore : stage.store.Reachable) (hsettled : stage.store.records = []) (route : String)
    (body : Payload) (user : Option String) :
    ∃ e others root l last f, Run.Serves g.engine g.requestAction stage
        (requestInput route body user) e others root l last f ∧
      ∀ q first later, drain g.engine l.stack l.progress = (.ok (), q) →
        answersOf q.records = first :: later → ∃ report,
          (g.request route body user stage).1 =
            .ok ⟨.requested, .object (first.input.erase "request"), some report⟩ ∧
          report.records = q.records := by
  have hpath : (requestInput route body user).string? "path" = some route := by
    simp [requestInput, Payload.string?, Table.get?_insert, Value.asString?]
  have hnew : ∀ r ∈ stage.store.records,
      r.run ≠ (Run.start (σ := World κ) stage none).run.id := by simp [hsettled]
  obtain ⟨id, world, hrequest, hholds⟩ := Requesting.request_eq g.config hpath stage.world
  obtain ⟨root, l, last, f, h⟩ := hengine.serves (e := ⟨id, route, stage.world.clock.now, none⟩)
    hstore hnew hpath ((congrFun (hopens _) _).trans hrequest) hholds
  refine ⟨_, _, root, l, last, f, h, fun q first later hdrain hanswers => ?_⟩
  obtain ⟨_, report, first', later', hanswered⟩ :=
    request_answered hengine hopens hstore hsettled route body user
  obtain ⟨after, hinvoke⟩ := invoke_of_request hanswered.response
  rw [Engine.invoke_of_drained h.opens hdrain] at hinvoke
  cases hinvoke
  obtain ⟨rfl, _⟩ := List.cons.inj (hanswers.symm.trans hanswered.once.answers)
  exact ⟨_, hanswered.response, rfl⟩

end Gateway

end ConceptSync
