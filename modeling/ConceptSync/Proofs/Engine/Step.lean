import ConceptSync.Engine.Drain
import ConceptSync.Proofs.Engine.Matching

set_option autoImplicit false
set_option relaxedAutoImplicit false

/-!
What one piece of work can do: the calls it makes of concepts and refinements, what it leaves alone
in the run, and what it asks of the keeper of records.
-/

namespace ConceptSync

variable {σ π : Type}

/-- A call of a refinement or an action, with the world it was made in. -/
inductive Activity (σ : Type) where
  | refined (rule : Rule σ) (frames : List Frame) (world : σ)
  | performed (action : ActionId) (input : Payload) (world : σ)

namespace Activity

def before : Activity σ → σ
  | .refined _ _ world => world
  | .performed _ _ world => world

def after (engine : Engine σ) : Activity σ → σ
  | .refined rule frames world => (refine rule frames world).2
  | .performed action input world => (engine.registry.perform action input world).2

end Activity

/-- A sequence of calls leads from one world to another, each made in the world its predecessor
left. -/
inductive Traces (engine : Engine σ) : σ → List (Activity σ) → σ → Prop
  | nil (world : σ) : Traces engine world [] world
  | cons {a : Activity σ} {rest : List (Activity σ)} {last : σ} :
      Traces engine (a.after engine) rest last → Traces engine a.before (a :: rest) last

theorem Traces.single (engine : Engine σ) (a : Activity σ) :
    Traces engine a.before [a] (a.after engine) :=
  .cons (.nil _)

theorem Traces.append {engine : Engine σ} {first middle last : σ} {as bs : List (Activity σ)}
    (ha : Traces engine first as middle) (hb : Traces engine middle bs last) :
    Traces engine first (as ++ bs) last := by
  induction ha with
  | nil _ => exact hb
  | cons _ ih => exact .cons (ih hb)

def Rule.refinementCall (rule : Rule σ) (frames : List Frame) (world : σ) : List (Activity σ) :=
  if rule.clauses.whereClause.isSome then [.refined rule frames world] else []

def Work.record : Work σ → Record
  | .complete _ record => record
  | .evaluate _ _ trigger => trigger
  | .invoke _ _ _ trigger => trigger

/-- The invocations of a rule in a frame, none of them if a variable is unbound. -/
def Rule.invocations (rule : Rule σ) (f : Frame) : List (ActionId × Payload) :=
  match f.resolveAll rule.clauses.thenPatterns with
  | .ok inputs => inputs
  | .error _ => []

/-- The branch that is given up with a frame, if a variable is unbound. -/
def Rule.abandoned (rule : Rule σ) (trigger : Record) (f : Frame) : List AbortedBranch :=
  match f.resolveAll rule.clauses.thenPatterns with
  | .ok _ => []
  | .error e => [⟨rule.name, trigger.seq, rule.describe e⟩]

theorem resolveFrames_eq_flatMap (rule : Rule σ) (trigger : Record) (frames : List Frame)
    (run : Run σ) :
    resolveFrames rule trigger frames run =
      ((frames.flatMap rule.invocations).map fun i => .invoke rule i.1 i.2 trigger,
        { run with aborted := run.aborted ++ frames.flatMap (rule.abandoned trigger) }) := by
  induction frames generalizing run with
  | nil => simp [resolveFrames]
  | cons f rest ih =>
    simp only [resolveFrames]
    split
    · next h => simp [ih, Rule.invocations, Rule.abandoned, h]
    · next h => simp [ih, Rule.invocations, Rule.abandoned, Run.abort, h]

variable [RecordKeeper π]

/-- The calls that a piece of work makes. -/
def Work.activities (engine : Engine σ) (work : Work σ) (p : Progress σ π) : List (Activity σ) :=
  match work with
  | .complete _ _ => []
  | .evaluate rule frames _ => rule.refinementCall frames p.stage.world
  | .invoke _ action input trigger =>
    match refusal engine (engine.registry.nameOf action) input trigger p.stage.store with
    | .ok none => [.performed action input p.stage.world]
    | _ => []

theorem refine_of_no_clause {rule : Rule σ} (frames : List Frame) (world : σ)
    (h : rule.clauses.whereClause.isSome = false) :
    refine rule frames world = (.frames frames, world) := by
  unfold refine
  rw [Option.isSome_eq_false_iff, Option.isNone_iff_eq_none] at h
  rw [h]

theorem refine_congr {β : Type} (view : σ → β) {rule : Rule σ} {frames : List Frame}
    {world world' : σ} (hview : view world = view world')
    (h : ∀ clause ∈ rule.clauses.whereClause,
      (clause frames world).1 = (clause frames world').1 ∧
        view (clause frames world).2 = view (clause frames world').2) :
    (refine rule frames world).1 = (refine rule frames world').1 ∧
      view (refine rule frames world).2 = view (refine rule frames world').2 := by
  unfold refine
  cases hclause : rule.clauses.whereClause with
  | none => exact ⟨rfl, hview⟩
  | some clause =>
    obtain ⟨hanswer, hkept⟩ := h clause hclause
    rcases hfirst : clause frames world with ⟨outcome, _⟩
    rcases hsecond : clause frames world' with ⟨outcome', _⟩
    rw [hfirst, hsecond] at hanswer hkept
    cases hanswer
    cases outcome with
    | ok _ => simpa only [hfirst, hsecond, true_and] using hkept
    | failed _ => simpa only [hfirst, hsecond, true_and] using hkept
    | broken b => cases b <;> simpa only [hfirst, hsecond, true_and] using hkept

omit [RecordKeeper π] in
private theorem world_evaluateFiring (rule : Rule σ) (frames : List Frame) (trigger : Record)
    (p : Progress σ π) :
    (evaluateFiring rule frames trigger p).2.stage.world =
      (refine rule frames p.stage.world).2 := by
  unfold evaluateFiring
  split
  · next h => rw [h]; rfl
  · next h => rw [h]; rfl
  · next h => rw [h]; rfl
  · next h => rw [h]; rfl

private theorem world_performInvocation (engine : Engine σ) (rule : Rule σ) (action : ActionId)
    (input : Payload) (trigger : Record) (p : Progress σ π) :
    (performInvocation engine rule action input trigger p).2.stage.world =
      (engine.registry.perform action input p.stage.world).2 := by
  unfold performInvocation
  dsimp only
  split
  · next h => rw [h]; rfl
  · next h => rw [h]; rfl
  · next h =>
    rw [h]
    split <;> rfl

theorem traces_step (engine : Engine σ) (work : Work σ) (p : Progress σ π) :
    Traces engine p.stage.world (work.activities engine p) (step engine work p).2.stage.world := by
  cases work with
  | complete action record => exact .nil _
  | evaluate rule frames trigger =>
    have hworld : (step engine (.evaluate rule frames trigger) p).2.stage.world =
        (refine rule frames p.stage.world).2 := world_evaluateFiring rule frames trigger p
    rw [hworld]
    simp only [Work.activities, Rule.refinementCall]
    split
    · exact Traces.single engine (.refined rule frames p.stage.world)
    · next h =>
      rw [refine_of_no_clause frames p.stage.world (by simpa using h)]
      exact .nil _
  | invoke rule action input trigger =>
    simp only [Work.activities, step, dispatch]
    cases refusal engine (engine.registry.nameOf action) input trigger p.stage.store with
    | error failure => exact .nil _
    | ok refused =>
      cases refused with
      | some error => exact .nil _
      | none =>
        have hworld := world_performInvocation engine rule action input trigger p
        simp only
        rw [hworld]
        exact Traces.single engine (.performed action input p.stage.world)

/-- Work on a run goes on in the same run: its identity and how it is stopped stay, and no other
run is opened. -/
structure Progress.Continues (p q : Progress σ π) : Prop where
  id : q.run.id = p.run.id
  cancel : q.run.cancel = p.run.cancel
  runs : q.stage.runs = p.stage.runs

namespace Progress.Continues

omit [RecordKeeper π] in
theorem refl (p : Progress σ π) : p.Continues p := ⟨rfl, rfl, rfl⟩

omit [RecordKeeper π] in
theorem trans {p q r : Progress σ π} (hpq : p.Continues q) (hqr : q.Continues r) :
    p.Continues r :=
  ⟨hqr.id.trans hpq.id, hqr.cancel.trans hpq.cancel, hqr.runs.trans hpq.runs⟩

end Progress.Continues

theorem continues_step (engine : Engine σ) (work : Work σ) (p : Progress σ π) :
    p.Continues (step engine work p).2 := by
  cases work with
  | complete action record =>
    simp only [step, completeRecord]
    split <;> exact ⟨rfl, rfl, rfl⟩
  | evaluate rule frames trigger =>
    simp only [step, evaluateFiring]
    split
    · exact ⟨rfl, rfl, rfl⟩
    · exact ⟨rfl, rfl, rfl⟩
    · exact ⟨rfl, rfl, rfl⟩
    · rw [resolveFrames_eq_flatMap]
      exact ⟨rfl, rfl, rfl⟩
  | invoke rule action input trigger =>
    simp only [step, dispatch]
    split
    · exact ⟨rfl, rfl, rfl⟩
    · exact ⟨rfl, rfl, rfl⟩
    · simp only [performInvocation]
      split
      · exact ⟨rfl, rfl, rfl⟩
      · exact ⟨rfl, rfl, rfl⟩
      · split <;> exact ⟨rfl, rfl, rfl⟩

theorem joins_step (engine : Engine σ) {work : Work σ} {p : Progress σ π}
    (h : ∀ action record, work = .complete action record → record.id ∈ p.run.seen) :
    (step engine work p).2.run.joins = p.run.joins ∧
      (step engine work p).2.run.seen = p.run.seen := by
  cases work with
  | complete action record =>
    simp only [step, completeRecord, if_pos (h action record rfl)]
    exact ⟨rfl, rfl⟩
  | evaluate rule frames trigger =>
    simp only [step, evaluateFiring]
    split
    · exact ⟨rfl, rfl⟩
    · exact ⟨rfl, rfl⟩
    · exact ⟨rfl, rfl⟩
    · rw [resolveFrames_eq_flatMap]
      exact ⟨rfl, rfl⟩
  | invoke rule action input trigger =>
    simp only [step, dispatch]
    split
    · exact ⟨rfl, rfl⟩
    · exact ⟨rfl, rfl⟩
    · simp only [performInvocation]
      split
      · exact ⟨rfl, rfl⟩
      · exact ⟨rfl, rfl⟩
      · split <;> exact ⟨rfl, rfl⟩

section Ends

variable {engine : Engine σ} {rule : Rule σ} {frames : List Frame} {action : ActionId}
  {input : Payload} {trigger : Record} {p : Progress σ π} {world : σ}

/-- A firing that keeps frames counts, makes the invocations of those that have all variables and
gives up the others. -/
theorem evaluate_of_frames {f : Frame} {rest : List Frame}
    (h : refine rule frames p.stage.world = (.frames (f :: rest), world)) :
    step engine (.evaluate rule frames trigger) p =
      (.ok (((f :: rest).flatMap rule.invocations).map fun i => .invoke rule i.1 i.2 trigger),
        (p.withWorld world).withRun { p.run with
          fired := p.run.fired + 1
          aborted := p.run.aborted ++ (f :: rest).flatMap (rule.abandoned trigger) }) := by
  simp only [step, evaluateFiring, h, resolveFrames_eq_flatMap]

theorem evaluate_of_no_frames (h : refine rule frames p.stage.world = (.frames [], world)) :
    step engine (.evaluate rule frames trigger) p = (.ok [], p.withWorld world) := by
  simp only [step, evaluateFiring, h]

theorem evaluate_of_error {e : EngineError}
    (h : refine rule frames p.stage.world = (.error e, world)) :
    step engine (.evaluate rule frames trigger) p =
      (.ok [], (p.withWorld world).withRun (p.run.abort rule trigger e)) := by
  simp only [step, evaluateFiring, h]

theorem evaluate_of_broken {b : Break}
    (h : refine rule frames p.stage.world = (.broken b, world)) :
    step engine (.evaluate rule frames trigger) p =
      (.error (.broken b), p.withWorld world) := by
  simp only [step, evaluateFiring, h]

theorem invoke_of_refused {e : EngineError}
    (h : refusal engine (engine.registry.nameOf action) input trigger p.stage.store =
      .ok (some e)) :
    step engine (.invoke rule action input trigger) p =
      (.ok [], p.withRun (p.run.abort rule trigger e)) := by
  simp only [step, dispatch, h]

variable (hallowed : refusal engine (engine.registry.nameOf action) input trigger p.stage.store =
  .ok none)

include hallowed

theorem invoke_of_failed {failure : Failure}
    (h : engine.registry.perform action input p.stage.world = (.failed failure, world)) :
    step engine (.invoke rule action input trigger) p =
      (.ok [], (p.withWorld world).withRun (p.run.abort rule trigger
        (.operationFailed (engine.registry.nameOf action) failure.message))) := by
  simp only [step, dispatch, hallowed, performInvocation, h]

theorem invoke_of_broken {b : Break}
    (h : engine.registry.perform action input p.stage.world = (.broken b, world)) :
    step engine (.invoke rule action input trigger) p =
      (.error (.broken b), p.withWorld world) := by
  simp only [step, dispatch, hallowed, performInvocation, h]

end Ends

theorem evaluate_step {engine : Engine σ} {rule : Rule σ} {frames : List Frame} {trigger : Record}
    {p q : Progress σ π} {next : List (Work σ)}
    (h : step engine (.evaluate rule frames trigger) p = (.ok next, q)) :
    ∀ w ∈ next, ∃ left world, refine rule frames p.stage.world = (.frames left, world) ∧
      ∃ f ∈ left, ∃ i ∈ rule.invocations f, w = .invoke rule i.1 i.2 trigger := by
  intro w hw
  rcases hrefine : refine rule frames p.stage.world with ⟨refined, world⟩
  simp only [step, evaluateFiring, hrefine] at h
  cases refined with
  | broken b => cases h
  | error e =>
    cases h
    cases hw
  | frames left =>
    cases left with
    | nil =>
      cases h
      cases hw
    | cons f rest =>
      simp only [resolveFrames_eq_flatMap] at h
      cases h
      obtain ⟨i, hi, rfl⟩ := List.mem_map.mp hw
      obtain ⟨g, hg, hi⟩ := List.mem_flatMap.mp hi
      exact ⟨_, _, rfl, g, hg, i, hi, rfl⟩

theorem invoke_step {engine : Engine σ} {rule : Rule σ} {action : ActionId} {input : Payload}
    {trigger : Record} {p : Progress σ π} {next : List (Work σ)}
    (h : (step engine (.invoke rule action input trigger) p).1 = .ok next) :
    ∀ w ∈ next, ∃ record, w = .complete action record := by
  intro w hw
  simp only [step, dispatch] at h
  split at h
  · cases h
  · cases h
    cases hw
  · obtain ⟨record, hcomplete, _⟩ := depth_of_performInvocation h w hw
    exact ⟨record, hcomplete⟩

/-- A piece of work either leaves the records alone and leads to further work on its completion,
or it is an invocation within the limit that was performed, and its completion goes to the
keeper. -/
theorem keeper_step (engine : Engine σ) (work : Work σ) (p : Progress σ π) :
    ((step engine work p).2.stage.store = p.stage.store ∧
      ∀ next, (step engine work p).1 = .ok next → ∀ w ∈ next,
        w.record = work.record ∧ ∀ action record, w ≠ .complete action record) ∨
    ∃ rule action input trigger output world, ∃ draft : Draft,
      work = .invoke rule action input trigger ∧
      engine.registry.perform action input p.stage.world = (.ok output, world) ∧
      draft = ⟨engine.registry.nameOf action, input, output, some p.run.id, trigger.depth + 1⟩ ∧
      draft.depth ≤ engine.config.maxDepth ∧
      (RecordKeeper.persistChild p.stage.store trigger.seq draft).2 =
        (step engine work p).2.stage.store ∧
      ∀ next, (step engine work p).1 = .ok next → ∃ record,
        (RecordKeeper.persistChild p.stage.store trigger.seq draft).1 = .ok record ∧
          next = [.complete action record] := by
  cases work with
  | complete action record =>
    left
    by_cases hseen : record.id ∈ p.run.seen
    · simp only [step, completeRecord_of_seen action hseen]
      exact ⟨rfl, fun next h => by cases h; simp⟩
    · simp only [step, completeRecord_of_unseen action hseen]
      refine ⟨rfl, fun next h w hw => ?_⟩
      cases h
      obtain ⟨firing, _, rfl⟩ := List.mem_map.mp hw
      exact ⟨rfl, fun _ _ h => by cases h⟩
  | evaluate rule frames trigger =>
    left
    constructor
    · simp only [step, evaluateFiring]
      split
      · rfl
      · rfl
      · rfl
      · rfl
    · intro next h w hw
      obtain ⟨_, _, _, _, _, i, _, rfl⟩ := evaluate_step (Prod.ext h rfl) w hw
      exact ⟨rfl, fun _ _ h => by cases h⟩
  | invoke rule action input trigger =>
    simp only [step, dispatch]
    split
    · exact .inl ⟨rfl, fun next h => by cases h⟩
    · exact .inl ⟨rfl, fun next h => by cases h; simp⟩
    · next hrefusal =>
      simp only [performInvocation]
      split
      · exact .inl ⟨rfl, fun next h => by cases h⟩
      · exact .inl ⟨rfl, fun next h => by cases h; simp⟩
      · next output world hperform =>
        right
        refine ⟨rule, action, input, trigger, output, world, _, rfl, hperform, rfl,
          depth_le_of_refusal hrefusal, ?_⟩
        split
        · next record store hkeep =>
          rw [hkeep]
          exact ⟨rfl, fun next h => ⟨record, rfl, by cases h; rfl⟩⟩
        · next hkeep =>
          rw [hkeep]
          exact ⟨rfl, fun next h => by cases h⟩

end ConceptSync
