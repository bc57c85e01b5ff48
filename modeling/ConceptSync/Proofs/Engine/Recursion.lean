import ConceptSync.Proofs.Engine.Loop

set_option autoImplicit false
set_option relaxedAutoImplicit false

/-!
The depth-first reading of a cascade. `process` matches a completion against every rule, then fires
the rules that joined one after the other, and what an invocation leads to is processed to its end
before the next invocation is made. The work stack does the same, call by call.
-/

namespace ConceptSync

variable {σ π : Type}

/-- What some processing did: the calls it made, how it ended and the run it left. -/
@[ext] structure Episode (σ π α : Type) where
  activities : List (Activity σ)
  outcome : Except Halt α
  progress : Progress σ π

namespace Episode

variable {α β γ : Type}

def idle (a : α) (p : Progress σ π) : Episode σ π α := ⟨[], .ok a, p⟩

def andThen (e : Episode σ π α) (next : α → Progress σ π → Episode σ π β) : Episode σ π β :=
  match e.outcome with
  | .error halt => ⟨e.activities, .error halt, e.progress⟩
  | .ok a =>
    let later := next a e.progress
    ⟨e.activities ++ later.activities, later.outcome, later.progress⟩

@[simp] theorem andThen_idle (e : Episode σ π α) : e.andThen idle = e := by
  obtain ⟨activities, outcome, p⟩ := e
  cases outcome with
  | error halt => rfl
  | ok a => simp [andThen, idle]

private theorem andThen_assoc (e : Episode σ π α) (next : α → Progress σ π → Episode σ π β)
    (later : β → Progress σ π → Episode σ π γ) :
    (e.andThen next).andThen later = e.andThen fun a p => (next a p).andThen later := by
  obtain ⟨activities, outcome, p⟩ := e
  cases outcome with
  | error halt => rfl
  | ok a =>
    simp only [andThen]
    split
    · rfl
    · simp only [List.append_assoc]

end Episode

def resolveFiring (rule : Rule σ) (frames : List Frame) (trigger : Record) (p : Progress σ π) :
    Episode σ π (List (ActionId × Payload)) :=
  let calls := rule.refinementCall frames p.stage.world
  match refine rule frames p.stage.world with
  | (.broken b, world) => ⟨calls, .error (.broken b), p.withWorld world⟩
  | (.error e, world) =>
    ⟨calls, .ok [], (p.withWorld world).withRun (p.run.abort rule trigger e)⟩
  | (.frames frames, world) =>
    ⟨calls, .ok (frames.flatMap rule.invocations),
      (p.withWorld world).withRun
        { p.run with
          fired := if frames.isEmpty then p.run.fired else p.run.fired + 1
          aborted := p.run.aborted ++ frames.flatMap (rule.abandoned trigger) }⟩

variable [RecordKeeper π]

structure Child (engine : Engine σ) (trigger : Record) where
  record : Record
  depth_eq : record.depth = trigger.depth + 1
  depth_le : record.depth ≤ engine.config.maxDepth

def makeInvocation (engine : Engine σ) (rule : Rule σ) (action : ActionId) (input : Payload)
    (trigger : Record) (p : Progress σ π) : Episode σ π (Option (Child engine trigger)) :=
  let name := engine.registry.nameOf action
  match hrefusal : refusal engine name input trigger p.stage.store with
  | .error failure => ⟨[], .error (.failed failure), p⟩
  | .ok (some error) => ⟨[], .ok none, p.withRun (p.run.abort rule trigger error)⟩
  | .ok none =>
    let calls := [.performed action input p.stage.world]
    match engine.registry.perform action input p.stage.world with
    | (.broken b, world) => ⟨calls, .error (.broken b), p.withWorld world⟩
    | (.failed failure, world) =>
      ⟨calls, .ok none,
        (p.withWorld world).withRun
          (p.run.abort rule trigger (.operationFailed name failure.message))⟩
    | (.ok output, world) =>
      let draft : Draft := ⟨name, input, output, some p.run.id, trigger.depth + 1⟩
      match hkeep : RecordKeeper.persistChild p.stage.store trigger.seq draft with
      | (.error failure, store) =>
        ⟨calls, .error (.failed failure), (p.withWorld world).withStore store⟩
      | (.ok record, store) =>
        have hdepth : record.depth = trigger.depth + 1 :=
          RecordKeeper.depth_persistChild _ _ _ record (by rw [hkeep])
        ⟨calls, .ok (some ⟨record, hdepth, hdepth ▸ depth_le_of_refusal hrefusal⟩),
          (p.withWorld world).withStore store⟩

mutual

/-- Process a completion: match it against every rule in order, which advances all join states,
then fire the rules that joined. A completion that was processed before is ignored. -/
def process (engine : Engine σ) (action : ActionId) (record : Record) (p : Progress σ π) :
    Episode σ π Unit :=
  if record.id ∈ p.run.seen then .idle () p
  else
    fireAll engine record (p.run.firings action record engine.rules)
      (p.withRun (p.run.matched action record engine.rules))
termination_by (3 * (engine.config.maxDepth - record.depth) + 2, 0)

def fireAll (engine : Engine σ) (trigger : Record) (firings : List (Rule σ × List Frame))
    (p : Progress σ π) : Episode σ π Unit :=
  match firings with
  | [] => .idle () p
  | (rule, frames) :: rest =>
    ((resolveFiring rule frames trigger p).andThen fun inputs p =>
      invokeAll engine rule trigger inputs p).andThen fun _ p => fireAll engine trigger rest p
termination_by (3 * (engine.config.maxDepth - trigger.depth) + 1, firings.length)

def invokeAll (engine : Engine σ) (rule : Rule σ) (trigger : Record)
    (inputs : List (ActionId × Payload)) (p : Progress σ π) : Episode σ π Unit :=
  match inputs with
  | [] => .idle () p
  | (action, input) :: rest =>
    ((makeInvocation engine rule action input trigger p).andThen fun child p =>
      match child with
      | none => .idle () p
      | some child => process engine action child.record p).andThen fun _ p =>
        invokeAll engine rule trigger rest p
termination_by (3 * (engine.config.maxDepth - trigger.depth), inputs.length)
decreasing_by
  · have := child.depth_eq
    have := child.depth_le
    exact Prod.Lex.left _ _ (by omega)
  · exact Prod.Lex.right _ (by simp)

end

def processWork (engine : Engine σ) (work : Work σ) (p : Progress σ π) : Episode σ π Unit :=
  match work with
  | .complete action record => process engine action record p
  | .evaluate rule frames trigger =>
    (resolveFiring rule frames trigger p).andThen fun inputs p =>
      invokeAll engine rule trigger inputs p
  | .invoke rule action input trigger =>
    (makeInvocation engine rule action input trigger p).andThen fun child p =>
      match child with
      | none => .idle () p
      | some child => process engine action child.record p

def processAll (engine : Engine σ) : List (Work σ) → Progress σ π → Episode σ π Unit
  | [], p => .idle () p
  | work :: rest, p => (processWork engine work p).andThen fun _ p => processAll engine rest p

private theorem processAll_append (engine : Engine σ) (first second : List (Work σ))
    (p : Progress σ π) :
    processAll engine (first ++ second) p =
      (processAll engine first p).andThen fun _ p => processAll engine second p := by
  induction first generalizing p with
  | nil => rfl
  | cons work first ih =>
    rw [List.cons_append, processAll, processAll, Episode.andThen_assoc]
    simp only [ih]

private theorem processAll_singleton (engine : Engine σ) (work : Work σ) (p : Progress σ π) :
    processAll engine [work] p = processWork engine work p :=
  Episode.andThen_idle _

private theorem fireAll_eq_processAll (engine : Engine σ) (trigger : Record)
    (firings : List (Rule σ × List Frame)) (p : Progress σ π) :
    fireAll engine trigger firings p =
      processAll engine (firings.map fun firing => .evaluate firing.1 firing.2 trigger) p := by
  induction firings generalizing p with
  | nil => rw [fireAll]; rfl
  | cons firing rest ih =>
    rw [fireAll, List.map_cons, processAll, processWork]
    simp only [ih]

private theorem invokeAll_eq_processAll (engine : Engine σ) (rule : Rule σ) (trigger : Record)
    (inputs : List (ActionId × Payload)) (p : Progress σ π) :
    invokeAll engine rule trigger inputs p =
      processAll engine (inputs.map fun i => .invoke rule i.1 i.2 trigger) p := by
  induction inputs generalizing p with
  | nil => rw [invokeAll]; rfl
  | cons i rest ih =>
    rw [invokeAll, List.map_cons, processAll, processWork]
    simp only [ih]

private def stepEpisode (engine : Engine σ) (work : Work σ) (p : Progress σ π) :
    Episode σ π (List (Work σ)) :=
  ⟨work.activities engine p, (step engine work p).1, (step engine work p).2⟩

private theorem stepEpisode_complete (engine : Engine σ) (action : ActionId) (record : Record)
    (p : Progress σ π) :
    process engine action record p =
      (stepEpisode engine (.complete action record) p).andThen fun next p =>
        processAll engine next p := by
  rw [process]
  split
  · next hseen =>
    simp only [stepEpisode, step, completeRecord_of_seen action hseen]
    rfl
  · next hseen =>
    rw [fireAll_eq_processAll]
    simp only [stepEpisode, step, completeRecord_of_unseen action hseen]
    rfl

private theorem stepEpisode_evaluate (engine : Engine σ) (rule : Rule σ) (frames : List Frame)
    (trigger : Record) (p : Progress σ π) :
    ((resolveFiring rule frames trigger p).andThen fun inputs p =>
        invokeAll engine rule trigger inputs p) =
      (stepEpisode engine (.evaluate rule frames trigger) p).andThen fun next p =>
        processAll engine next p := by
  simp only [invokeAll_eq_processAll]
  rcases hrefine : refine rule frames p.stage.world with ⟨refined, world⟩
  cases refined with
  | broken b =>
    simp only [resolveFiring, stepEpisode, step, evaluateFiring, Work.activities, hrefine]
    rfl
  | error e =>
    simp only [resolveFiring, stepEpisode, step, evaluateFiring, Work.activities, hrefine]
    rfl
  | frames left =>
    cases left with
    | nil =>
      simp only [resolveFiring, stepEpisode, step, evaluateFiring, Work.activities, hrefine]
      simp [Episode.andThen, Progress.withRun, Progress.withWorld]
    | cons f rest =>
      simp only [resolveFiring, stepEpisode, step, evaluateFiring, Work.activities, hrefine,
        resolveFrames_eq_flatMap]
      rfl

private theorem stepEpisode_invoke (engine : Engine σ) (rule : Rule σ) (action : ActionId)
    (input : Payload) (trigger : Record) (p : Progress σ π) :
    ((makeInvocation engine rule action input trigger p).andThen fun child p =>
      match child with
      | none => .idle () p
      | some child => process engine action child.record p) =
      (stepEpisode engine (.invoke rule action input trigger) p).andThen fun next p =>
        processAll engine next p := by
  simp only [makeInvocation, stepEpisode, step, dispatch, Work.activities]
  split
  · next h => simp only [h]; rfl
  · next h => simp only [h]; rfl
  · next h =>
    simp only [h, performInvocation]
    rcases hperform : engine.registry.perform action input p.stage.world with ⟨outcome, world⟩
    cases outcome with
    | broken b => rfl
    | failed failure => rfl
    | ok output =>
      dsimp only
      split
      · next hkeep => simp only [hkeep]; rfl
      · next hkeep =>
        simp only [hkeep, Episode.andThen, processAll_singleton]
        rfl

private theorem processWork_eq_step (engine : Engine σ) (work : Work σ) (p : Progress σ π) :
    processWork engine work p =
      (stepEpisode engine work p).andThen fun next p => processAll engine next p := by
  cases work with
  | complete action record => exact stepEpisode_complete engine action record p
  | evaluate rule frames trigger => exact stepEpisode_evaluate engine rule frames trigger p
  | invoke rule action input trigger => exact stepEpisode_invoke engine rule action input trigger p

namespace Loop

def episode (engine : Engine σ) (l : Loop σ π) : Episode σ π Unit :=
  ⟨l.activities engine, (drain engine l.stack l.progress).1, (drain engine l.stack l.progress).2⟩

private theorem episode_eq_processAll (engine : Engine σ) (l : Loop σ π)
    (uncancelled : ∀ l', Reaches engine l l' → l'.progress.isCancelled = false) :
    l.episode engine = processAll engine l.stack l.progress := by
  induction l using (wellFounded_turn π engine).induction with | h l ih => ?_
  rcases hturn : l.turn engine with l' | result
  · obtain ⟨work, rest, next, hstack, hnext, hstep, hstack'⟩ := turn_cases hturn
    have hlater : l'.episode engine = processAll engine l'.stack l'.progress :=
      ih l' hturn fun m hm => uncancelled m (.head hturn hm)
    -- the work of this turn, then what it leads to, then the rest of the stack
    have hepisode : l.episode engine =
        (stepEpisode engine work l.progress).andThen fun _ _ => l'.episode engine := by
      simp only [episode, Episode.andThen, stepEpisode, hstep, activities, history_eq_turn engine l,
        drain_eq_turn engine l, hnext, hturn]
      rfl
    rw [hepisode, hstack, processAll, processWork_eq_step, Episode.andThen_assoc]
    simp only [← processAll_append]
    simp only [Episode.andThen, stepEpisode, hstep, hlater, hstack']
  · have hhistory : l.history engine = l.next?.toList := by
      rw [history_eq_turn, hturn, List.append_nil]
    have hdrain : drain engine l.stack l.progress = result := by
      rw [drain_eq_turn, hturn]
    rcases turn_ends hturn with ⟨hnext, hstack, rfl⟩ | ⟨_, hcancel, _⟩ |
      ⟨work, rest, halt, hstack, hnext, hstep, hhalt⟩
    · simp only [episode, activities, hhistory, hnext, hdrain]
      rw [hstack]
      rfl
    · rw [uncancelled l .refl] at hcancel
      contradiction
    · rw [hstack, processAll, processWork_eq_step, Episode.andThen_assoc]
      simp only [episode, activities, hhistory, hnext, hdrain, Episode.andThen, stepEpisode, hstep,
        hhalt]
      simp

end Loop

/-- The work stack of a run that is never asked to stop does what depth-first recursion does: the
same calls in the same order, the same end and the same run, with its records, join states, given
up branches, fired count and world. -/
theorem episode_complete_eq_process (engine : Engine σ) (action : ActionId) (record : Record)
    (p : Progress σ π)
    (uncancelled : ∀ l, Loop.Reaches engine ⟨[.complete action record], p⟩ l →
      l.progress.isCancelled = false) :
    Loop.episode engine ⟨[.complete action record], p⟩ = process engine action record p := by
  rw [Loop.episode_eq_processAll engine _ uncancelled]
  exact processAll_singleton engine (.complete action record) p

/-- A rule that triggers itself in a run that cannot be stopped. -/
theorem episode_complete_eq_process_again :
    let engine := Engine.echo [.again] { maxDepth := 2, cycleGuard := false }
    let said : Record := ⟨1, .issue .record 1, .epoch, "Echo.say", none, none, "run", 0, [], []⟩
    let p : Progress Unit RecordStore := ⟨.fresh "run" none, ⟨(), ⟨1, [said], .epoch⟩, 1⟩⟩
    (∀ l, Loop.Reaches engine ⟨[.complete ⟨0⟩ said], p⟩ l → l.progress.isCancelled = false) ∧
      Loop.episode engine ⟨[.complete ⟨0⟩ said], p⟩ = process engine ⟨0⟩ said p := by
  intro engine said p
  have uncancelled : ∀ l, Loop.Reaches engine ⟨[.complete ⟨0⟩ said], p⟩ l →
      l.progress.isCancelled = false := Loop.uncancelled_of_no_flag rfl
  exact ⟨uncancelled, episode_complete_eq_process engine ⟨0⟩ said p uncancelled⟩

end ConceptSync
