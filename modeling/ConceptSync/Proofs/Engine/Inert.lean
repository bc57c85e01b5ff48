import ConceptSync.Proofs.Engine.Cancelling

set_option autoImplicit false
set_option relaxedAutoImplicit false

/-!
Rules that never come to anything. A rule whose clause changes nothing and keeps no frame may stand
anywhere among the rules of an engine: every run does the same with it and without it, and all that
tells of it are the branches that it gives up itself.
-/

namespace ConceptSync

inductive Interspersed {α : Type} (P : α → Prop) : List α → List α → Prop
  | nil : Interspersed P [] []
  | cons (a : α) {as bs : List α} : Interspersed P as bs → Interspersed P (a :: as) (a :: bs)
  | further {b : α} {as bs : List α} : P b → Interspersed P as bs → Interspersed P as (b :: bs)

namespace Interspersed

variable {α : Type} {P : α → Prop} {as bs cs ds : List α}

private theorem refl (P : α → Prop) (as : List α) : Interspersed P as as := by
  induction as with
  | nil => exact .nil
  | cons a as ih => exact .cons a ih

private theorem append (h : Interspersed P as bs) (h' : Interspersed P cs ds) :
    Interspersed P (as ++ cs) (bs ++ ds) := by
  induction h with
  | nil => exact h'
  | cons a _ ih => exact .cons a ih
  | further hb _ ih => exact .further hb ih

private theorem snoc (h : Interspersed P as bs) {b : α} (hb : P b) :
    Interspersed P as (bs ++ [b]) := by
  simpa using h.append (.further hb .nil)

private theorem map {β : Type} {Q : β → Prop} {f : α → β} (hf : ∀ b, P b → Q (f b))
    (h : Interspersed P as bs) : Interspersed Q (as.map f) (bs.map f) := by
  induction h with
  | nil => exact .nil
  | cons a _ ih => exact .cons (f a) ih
  | further hb _ ih => exact .further (hf _ hb) ih

private theorem filterMap_eq {β : Type} {f : α → Option β} (hf : ∀ b, P b → f b = none)
    (h : Interspersed P as bs) : bs.filterMap f = as.filterMap f := by
  induction h with
  | nil => rfl
  | cons a _ ih => simp only [List.filterMap_cons, ih]
  | further hb _ ih => rw [List.filterMap_cons, hf _ hb, ih]

end Interspersed

variable {σ π : Type}

/-- A rule that never comes to anything: its clause leaves the world alone, and it fails, panics or
keeps no frame. -/
def Rule.Inert (rule : Rule σ) : Prop :=
  ∃ clause, rule.clauses.whereClause = some clause ∧ ∀ frames world,
    (clause frames world).2 = world ∧
      ((∃ failure, (clause frames world).1 = .failed failure) ∨
        (∃ message, (clause frames world).1 = .broken (.panicked message)) ∨
        (clause frames world).1 = .ok [])

def Work.Evaluates (rule : Rule σ) (work : Work σ) : Prop :=
  ∃ frames trigger, work = .evaluate rule frames trigger

def Activity.Refines (rule : Rule σ) (call : Activity σ) : Prop :=
  ∃ frames world, call = .refined rule frames world

private theorem Rule.Inert.refine_eq {rule : Rule σ} (h : rule.Inert) (frames : List Frame)
    (world : σ) :
    (∃ error, refine rule frames world = (.error error, world)) ∨
      refine rule frames world = (.frames [], world) := by
  obtain ⟨clause, hclause, hends⟩ := h
  obtain ⟨hworld, hends⟩ := hends frames world
  rcases hran : clause frames world with ⟨outcome, after⟩
  rw [hran] at hworld hends
  obtain rfl : after = world := hworld
  unfold refine
  rw [hclause]
  simp only [hran]
  rcases hends with ⟨failure, hfailed⟩ | ⟨message, hpanicked⟩ | hnone
  · obtain rfl : outcome = .failed failure := hfailed
    exact .inl ⟨_, rfl⟩
  · obtain rfl : outcome = .broken (.panicked message) := hpanicked
    exact .inl ⟨_, rfl⟩
  · obtain rfl : outcome = .ok [] := hnone
    exact .inr rfl

/-- A run of an engine and the same run with a further rule at a position. What is pending in the
rules from there on stands one place further, and the aborted branches are the same but for those of
the further rule. -/
structure Progress.Beside (rule : Rule σ) (place : Nat) (p p' : Progress σ π) : Prop where
  stage : p'.stage = p.stage
  id : p'.run.id = p.run.id
  seen : p'.run.seen = p.run.seen
  fired : p'.run.fired = p.run.fired
  cancelled : p'.run.cancelled = p.run.cancelled
  cancel : p.run.cancel = none
  cancel' : p'.run.cancel = none
  before : ∀ j < place, p'.run.joins[j]? = p.run.joins[j]?
  after : ∀ j, place ≤ j → p'.run.joins[j + 1]? = p.run.joins[j]?
  aborted : Interspersed (fun branch => branch.rule = rule.name) p.run.aborted p'.run.aborted

inductive Work.AnswerBeside (rule : Rule σ) :
    Except Halt (List (Work σ)) → Except Halt (List (Work σ)) → Prop
  | goes {next next' : List (Work σ)} :
      Interspersed (Work.Evaluates rule) next next' → AnswerBeside rule (.ok next) (.ok next')
  | halts (halt : Halt) : AnswerBeside rule (.error halt) (.error halt)

private theorem Work.AnswerBeside.refl (rule : Rule σ) (answer : Except Halt (List (Work σ))) :
    AnswerBeside rule answer answer := by
  cases answer with
  | ok next => exact .goes (.refl _ next)
  | error halt => exact .halts halt

namespace Progress.Beside

variable {rule : Rule σ} {place : Nat} {p p' : Progress σ π}

private theorem withStage (h : p.Beside rule place p') (stage : Stage σ π) :
    Progress.Beside rule place ⟨p.run, stage⟩ ⟨p'.run, stage⟩ :=
  { h with stage := rfl }

private theorem giveUp (h : p.Beside rule place p') (given : List AbortedBranch) (firings : Nat) :
    Progress.Beside rule place
      (p.withRun { p.run with
        fired := p.run.fired + firings, aborted := p.run.aborted ++ given })
      (p'.withRun { p'.run with
        fired := p'.run.fired + firings, aborted := p'.run.aborted ++ given }) :=
  { h with
    fired := congrArg (· + firings) h.fired
    aborted := h.aborted.append (.refl _ given) }

end Progress.Beside

section Matching

variable {rule : Rule σ} {run run' : Run σ} {action : ActionId} {record : Record}

private theorem offered_of_joins {j j' : Nat} (h : run'.joins[j']? = run.joins[j]?)
    (other : Rule σ) :
    run'.offered action record j' other = run.offered action record j other := by
  unfold Run.offered Run.joinState
  rw [h]

private theorem firings_beside {before after : List (Rule σ)}
    (hbefore : ∀ j < before.length, run'.joins[j]? = run.joins[j]?)
    (hafter : ∀ j, before.length ≤ j → run'.joins[j + 1]? = run.joins[j]?) :
    Interspersed (fun firing => firing.1 = rule) (run.firings action record (before ++ after))
      (run'.firings action record (before ++ rule :: after)) := by
  have hfirst : before.mapIdx (fun j other =>
      (other, (run'.offered action record j other).1.map Joined.frame)) =
      before.mapIdx fun j other =>
        (other, (run.offered action record j other).1.map Joined.frame) := by
    refine List.mapIdx_eq_mapIdx_iff.mpr fun j hj => ?_
    rw [offered_of_joins (hbefore j hj)]
  have hlast : after.mapIdx (fun j other =>
      (other, (run'.offered action record (j + 1 + before.length) other).1.map Joined.frame)) =
      after.mapIdx fun j other =>
        (other, (run.offered action record (j + before.length) other).1.map Joined.frame) := by
    refine List.mapIdx_eq_mapIdx_iff.mpr fun j hj => ?_
    rw [Nat.add_right_comm, offered_of_joins (hafter _ (Nat.le_add_left _ _))]
  unfold Run.firings
  rw [List.mapIdx_append, List.mapIdx_append, List.mapIdx_cons, hfirst, hlast,
    List.filter_append, List.filter_append]
  refine (Interspersed.refl _ _).append ?_
  rw [List.filter_cons]
  split
  · exact .further rfl (.refl _ _)
  · exact .refl _ _

private theorem joins_beside {before after : List (Rule σ)}
    (hbefore : ∀ j < before.length, run'.joins[j]? = run.joins[j]?)
    (hafter : ∀ j, before.length ≤ j → run'.joins[j + 1]? = run.joins[j]?) :
    (∀ j < before.length,
      (run'.matched action record (before ++ rule :: after)).joins[j]? =
        (run.matched action record (before ++ after)).joins[j]?) ∧
    ∀ j, before.length ≤ j →
      (run'.matched action record (before ++ rule :: after)).joins[j + 1]? =
        (run.matched action record (before ++ after)).joins[j]? := by
  simp only [Run.matched, List.getElem?_mapIdx]
  refine ⟨fun j hj => ?_, fun j hj => ?_⟩
  · rw [List.getElem?_append_left hj, List.getElem?_append_left hj]
    simp only [offered_of_joins (hbefore j hj)]
  · have hnext : j + 1 - before.length = j - before.length + 1 := by omega
    rw [List.getElem?_append_right (by omega), List.getElem?_append_right hj, hnext,
      List.getElem?_cons_succ]
    simp only [offered_of_joins (hafter j hj)]

end Matching

structure Engine.Beside (engine engine' : Engine σ) (rule : Rule σ) (place : Nat) : Prop where
  registry : engine'.registry = engine.registry
  config : engine'.config = engine.config
  rules : ∃ before after, before.length = place ∧ engine.rules = before ++ after ∧
    engine'.rules = before ++ rule :: after

section Step

variable [RecordKeeper π] {engine engine' : Engine σ} {rule : Rule σ} {place : Nat}
  {p p' : Progress σ π}

structure Work.StepsBeside (work : Work σ) (engine engine' : Engine σ) (rule : Rule σ)
    (place : Nat) (p p' : Progress σ π) : Prop where
  answer : Work.AnswerBeside rule (step engine work p).1 (step engine' work p').1
  progress : (step engine work p).2.Beside rule place (step engine' work p').2
  activities : work.activities engine' p' = work.activities engine p

private theorem complete_beside (hengine : engine.Beside engine' rule place)
    (h : p.Beside rule place p') (action : ActionId) (record : Record) :
    (Work.complete action record).StepsBeside engine engine' rule place p p' := by
  obtain ⟨before, after, rfl, hrules, hrules'⟩ := hengine.rules
  by_cases hseen : record.id ∈ p.run.seen
  · have hseen' : record.id ∈ p'.run.seen := h.seen ▸ hseen
    refine ⟨?_, ?_, rfl⟩ <;>
      simp only [step, completeRecord_of_seen action hseen, completeRecord_of_seen action hseen']
    · exact .refl _ _
    · exact h
  · have hseen' : record.id ∉ p'.run.seen := h.seen ▸ hseen
    refine ⟨?_, ?_, rfl⟩ <;>
      simp only [step, completeRecord_of_unseen action hseen,
        completeRecord_of_unseen action hseen', hrules, hrules']
    · refine .goes ((firings_beside h.before h.after).map ?_)
      rintro ⟨_, frames⟩ rfl
      exact ⟨frames, record, rfl⟩
    · exact { h with
        seen := congrArg (record.id :: ·) h.seen
        before := (joins_beside h.before h.after).1
        after := (joins_beside h.before h.after).2 }

private theorem evaluate_beside (h : p.Beside rule place p') (other : Rule σ) (frames : List Frame)
    (trigger : Record) :
    (Work.evaluate other frames trigger).StepsBeside engine engine' rule place p p' := by
  obtain ⟨run, stage⟩ := p
  obtain ⟨run', stage'⟩ := p'
  obtain rfl : stage' = stage := h.stage
  rcases hrefine : refine other frames stage'.world with ⟨refined, world⟩
  have hmoved := h.withStage { stage' with world }
  cases refined with
  | broken b =>
    refine ⟨?_, ?_, rfl⟩ <;>
      rw [evaluate_of_broken (p := ⟨run, stage'⟩) hrefine,
        evaluate_of_broken (p := ⟨run', stage'⟩) hrefine]
    · exact .halts _
    · exact hmoved
  | error e =>
    refine ⟨?_, ?_, rfl⟩ <;>
      rw [evaluate_of_error (p := ⟨run, stage'⟩) hrefine,
        evaluate_of_error (p := ⟨run', stage'⟩) hrefine]
    · exact .refl _ _
    · exact hmoved.giveUp _ 0
  | frames left =>
    cases left with
    | nil =>
      refine ⟨?_, ?_, rfl⟩ <;>
        rw [evaluate_of_no_frames (p := ⟨run, stage'⟩) hrefine,
          evaluate_of_no_frames (p := ⟨run', stage'⟩) hrefine]
      · exact .refl _ _
      · exact hmoved
    | cons f rest =>
      refine ⟨?_, ?_, rfl⟩ <;>
        rw [evaluate_of_frames (p := ⟨run, stage'⟩) hrefine,
          evaluate_of_frames (p := ⟨run', stage'⟩) hrefine]
      · exact .refl _ _
      · exact hmoved.giveUp _ 1

private theorem invoke_eq (hengine : engine.Beside engine' rule place) (other : Rule σ)
    (action : ActionId) (input : Payload) (trigger : Record) (q : Progress σ π) :
    step engine' (.invoke other action input trigger) q =
        step engine (.invoke other action input trigger) q ∧
      Work.activities engine' (.invoke other action input trigger) q =
        Work.activities engine (.invoke other action input trigger) q := by
  obtain ⟨registry, rules, config⟩ := engine
  obtain ⟨registry', rules', config'⟩ := engine'
  obtain rfl : registry' = registry := hengine.registry
  obtain rfl : config' = config := hengine.config
  exact ⟨rfl, rfl⟩

private theorem invoke_beside (hengine : engine.Beside engine' rule place)
    (h : p.Beside rule place p') (other : Rule σ) (action : ActionId) (input : Payload)
    (trigger : Record) :
    (Work.invoke other action input trigger).StepsBeside engine engine' rule place p p' := by
  obtain ⟨run, stage⟩ := p
  obtain ⟨run', stage'⟩ := p'
  obtain rfl : stage' = stage := h.stage
  have hid : run'.id = run.id := h.id
  obtain ⟨hstep, hcalls⟩ := invoke_eq hengine other action input trigger ⟨run', stage'⟩
  suffices hboth : Work.AnswerBeside rule
        (step engine (.invoke other action input trigger) ⟨run, stage'⟩).1
        (step engine (.invoke other action input trigger) ⟨run', stage'⟩).1 ∧
      Progress.Beside rule place
        (step engine (.invoke other action input trigger) ⟨run, stage'⟩).2
        (step engine (.invoke other action input trigger) ⟨run', stage'⟩).2 from
    ⟨hstep ▸ hboth.1, hstep ▸ hboth.2, hcalls⟩
  simp only [step, dispatch]
  rcases refusal engine (engine.registry.nameOf action) input trigger stage'.store with
    failure | _ | error
  · exact ⟨.halts _, h⟩
  · simp only [performInvocation, hid]
    rcases engine.registry.perform action input stage'.world with ⟨output | failure | b, world⟩
    · dsimp only
      rcases RecordKeeper.persistChild stage'.store trigger.seq
        ⟨engine.registry.nameOf action, input, output, some run.id, trigger.depth + 1⟩ with
        ⟨_ | _, store⟩
      · exact ⟨.halts _, h.withStage _⟩
      · exact ⟨.refl _ _, h.withStage _⟩
    · exact ⟨.refl _ _, (h.withStage _).giveUp _ 0⟩
    · exact ⟨.halts _, h.withStage _⟩
  · exact ⟨.refl _ _, h.giveUp _ 0⟩

private theorem step_beside (hengine : engine.Beside engine' rule place)
    (h : p.Beside rule place p')
    (work : Work σ) : work.StepsBeside engine engine' rule place p p' := by
  cases work with
  | complete action record => exact complete_beside hengine h action record
  | evaluate other frames trigger => exact evaluate_beside h other frames trigger
  | invoke other action input trigger => exact invoke_beside hengine h other action input trigger

private theorem Rule.Inert.step_beside (hinert : rule.Inert) (h : p.Beside rule place p')
    (engine : Engine σ) (frames : List Frame) (trigger : Record) :
    ∃ q, step engine (.evaluate rule frames trigger) p' = (.ok [], q) ∧ p.Beside rule place q := by
  rcases hinert.refine_eq frames p'.stage.world with ⟨e, herror⟩ | hnone
  · refine ⟨_, evaluate_of_error herror, ?_⟩
    exact { h with aborted := h.aborted.snoc rfl }
  · exact ⟨_, evaluate_of_no_frames hnone, h⟩

private theorem Rule.Inert.refinementCall_eq (hinert : rule.Inert) (frames : List Frame)
    (world : σ) :
    rule.refinementCall frames world = [.refined rule frames world] := by
  obtain ⟨clause, hclause, _⟩ := hinert
  simp [Rule.refinementCall, hclause]

end Step

namespace Loop

variable [RecordKeeper π] {engine engine' : Engine σ} {rule : Rule σ} {place : Nat}
  {l l' : Loop σ π}

structure Beside (rule : Rule σ) (place : Nat) (l l' : Loop σ π) : Prop where
  stack : Interspersed (Work.Evaluates rule) l.stack l'.stack
  progress : l.progress.Beside rule place l'.progress

private theorem drain_of_step {work : Work σ} (rest : List (Work σ)) {next : List (Work σ)}
    {p q : Progress σ π} (hcancel : p.run.cancel = none)
    (hstep : step engine work p = (.ok next, q)) :
    drain engine (work :: rest) p = drain engine (next ++ rest) q ∧
      Loop.activities engine ⟨work :: rest, p⟩ =
        work.activities engine p ++ Loop.activities engine ⟨next ++ rest, q⟩ := by
  have hturn := turn_of_step (l := ⟨work :: rest, p⟩) hcancel rfl hstep
  have hgoes : p.isCancelled = false := by simp [Progress.isCancelled, hcancel]
  refine ⟨(drain_eq_turn engine ⟨work :: rest, p⟩).trans (by rw [hturn]), ?_⟩
  rw [activities_eq_turn, hturn]
  simp [next?, hgoes]

private theorem drain_of_halt {work : Work σ} (rest : List (Work σ)) {p q : Progress σ π}
    {halt : Halt} (hcancel : p.run.cancel = none)
    (hstep : step engine work p = (.error halt, q)) :
    drain engine (work :: rest) p = (.error halt, q) ∧
      Loop.activities engine ⟨work :: rest, p⟩ = work.activities engine p := by
  have hgoes : p.isCancelled = false := by simp [Progress.isCancelled, hcancel]
  have hturn : Loop.turn engine ⟨work :: rest, p⟩ = .inr (.error halt, q) := by
    simp [turn, hgoes, hstep]
  refine ⟨(drain_eq_turn engine ⟨work :: rest, p⟩).trans (by rw [hturn]), ?_⟩
  rw [activities_eq_turn, hturn]
  simp [next?, hgoes]

private theorem Beside.drain (hengine : engine.Beside engine' rule place) (hinert : rule.Inert)
    (h : l.Beside rule place l') :
    (drain engine' l'.stack l'.progress).1 = (drain engine l.stack l.progress).1 ∧
      (drain engine l.stack l.progress).2.Beside rule place
        (drain engine' l'.stack l'.progress).2 ∧
      Interspersed (Activity.Refines rule) (l.activities engine) (l'.activities engine') := by
  -- on the turns of the run with the further rule
  induction l' using (wellFounded_turn π engine').induction generalizing l with | h l' ih => ?_
  obtain ⟨stack, p⟩ := l
  obtain ⟨stack', p'⟩ := l'
  obtain ⟨hstack, hbeside⟩ := h
  cases hstack with
  | nil =>
    simp only [ConceptSync.drain, activities_eq_turn, turn, next?]
    exact ⟨trivial, hbeside, .nil⟩
  | @cons work rest rest' hrest =>
    obtain ⟨hanswer, hstepped, hcalls⟩ := step_beside hengine hbeside work
    rcases hstep : step engine work p with ⟨answer, q⟩
    rcases hstep' : step engine' work p' with ⟨answer', q'⟩
    rw [hstep, hstep'] at hanswer hstepped
    cases hanswer with
    | @goes next next' hnext =>
      obtain ⟨hdrain, hmade⟩ := drain_of_step rest hbeside.cancel hstep
      obtain ⟨hdrain', hmade'⟩ := drain_of_step rest' hbeside.cancel' hstep'
      have hturn := turn_of_step (l := ⟨work :: rest', p'⟩) hbeside.cancel' rfl hstep'
      obtain ⟨hsame, hended, hlater⟩ :=
        ih _ hturn (l := ⟨next ++ rest, q⟩) ⟨hnext.append hrest, hstepped⟩
      rw [hdrain, hdrain', hmade, hmade', hcalls]
      exact ⟨hsame, hended, (Interspersed.refl _ _).append hlater⟩
    | halts halt =>
      obtain ⟨hdrain, hmade⟩ := drain_of_halt rest hbeside.cancel hstep
      obtain ⟨hdrain', hmade'⟩ := drain_of_halt rest' hbeside.cancel' hstep'
      rw [hdrain, hdrain', hmade, hmade', hcalls]
      exact ⟨rfl, hstepped, .refl _ _⟩
  | @further work _ rest' hwork hrest =>
    obtain ⟨frames, trigger, rfl⟩ := hwork
    obtain ⟨q, hstep, hstepped⟩ := hinert.step_beside hbeside engine' frames trigger
    obtain ⟨hdrain', hmade'⟩ := drain_of_step rest' hbeside.cancel' hstep
    have hturn := turn_of_step (l := ⟨.evaluate rule frames trigger :: rest', p'⟩)
      hbeside.cancel' rfl hstep
    obtain ⟨hsame, hended, hlater⟩ := ih _ hturn (l := ⟨stack, p⟩) ⟨hrest, hstepped⟩
    rw [hdrain', hmade', Work.activities, hinert.refinementCall_eq]
    exact ⟨hsame, hended, .further ⟨frames, p'.stage.world, rfl⟩ hlater⟩

end Loop

/-- What a sequence of invocations in a run comes to: the answers, the calls that were made, and the
run afterwards. -/
structure Session (σ π : Type) where
  answers : List (Except Halt Record)
  calls : List (Activity σ)
  progress : Progress σ π

namespace Run

variable [RecordKeeper π]

def calls (engine : Engine σ) (action : ActionId) (input : Payload) (p : Progress σ π) :
    List (Activity σ) :=
  engine.rootCalls action input p.stage.world ++
    (opening engine action input p).elim [] (Loop.activities engine)

def session (engine : Engine σ) : List (ActionId × Payload) → Progress σ π → Session σ π
  | [], p => ⟨[], [], p⟩
  | (action, input) :: rest, p =>
    let later := session engine rest (invoke engine action input p).2
    ⟨(invoke engine action input p).1 :: later.answers, calls engine action input p ++ later.calls,
      later.progress⟩

variable {engine engine' : Engine σ} {rule : Rule σ} {place : Nat} {p p' : Progress σ π}

private theorem invoke_beside (hengine : engine.Beside engine' rule place) (hinert : rule.Inert)
    (h : p.Beside rule place p') (action : ActionId) (input : Payload) :
    (invoke engine' action input p').1 = (invoke engine action input p).1 ∧
      (invoke engine action input p).2.Beside rule place (invoke engine' action input p').2 ∧
      Interspersed (Activity.Refines rule) (calls engine action input p)
        (calls engine' action input p') := by
  have hregistry : engine'.registry = engine.registry := hengine.registry
  obtain ⟨run, stage⟩ := p
  obtain ⟨run', stage'⟩ := p'
  obtain rfl : stage' = stage := h.stage
  have hid : run'.id = run.id := h.id
  simp only [invoke, calls, Engine.rootCalls, opening, hregistry, hid]
  by_cases hkind : engine.registry.kind? action = some .action
  · simp only [hkind, ne_eq, not_true_eq_false, if_false, if_true]
    rcases engine.registry.perform action input stage'.world with ⟨output | failure | b, world⟩
    · dsimp only
      rcases RecordKeeper.persist stage'.store
        ⟨engine.registry.nameOf action, input, output, some run.id, 0⟩ with ⟨_ | record, store⟩
      · exact ⟨rfl, h.withStage _, .refl _ _⟩
      · have hloop : Loop.Beside rule place
            ⟨[.complete action record],
              ((⟨run, stage'⟩ : Progress σ π).withWorld world).withStore store⟩
            ⟨[.complete action record],
              ((⟨run', stage'⟩ : Progress σ π).withWorld world).withStore store⟩ :=
          ⟨.refl _ _, h.withStage _⟩
        obtain ⟨hsame, hended, hcalls⟩ := hloop.drain hengine hinert
        refine and_assoc.mp ⟨?_, (Interspersed.refl _ _).append hcalls⟩
        dsimp only at hsame hended ⊢
        generalize drain engine' [.complete action record]
          (((⟨run', stage'⟩ : Progress σ π).withWorld world).withStore store) = ended'
          at hsame hended ⊢
        generalize drain engine [.complete action record]
          (((⟨run, stage'⟩ : Progress σ π).withWorld world).withStore store) = ended
          at hsame hended ⊢
        obtain ⟨answer, q⟩ := ended
        obtain ⟨answer', q'⟩ := ended'
        obtain rfl : answer' = answer := hsame
        cases answer' with
        | ok _ => exact ⟨rfl, hended⟩
        | error _ => exact ⟨rfl, hended⟩
    · exact ⟨rfl, h.withStage _, .refl _ _⟩
    · exact ⟨rfl, h.withStage _, .refl _ _⟩
  · simp only [hkind, ne_eq, not_false_eq_true, if_true, if_false]
    exact ⟨trivial, h, .refl _ _⟩

private theorem session_beside (hengine : engine.Beside engine' rule place) (hinert : rule.Inert)
    (h : p.Beside rule place p') (asked : List (ActionId × Payload)) :
    (session engine' asked p').answers = (session engine asked p).answers ∧
      (session engine asked p).progress.Beside rule place (session engine' asked p').progress ∧
      Interspersed (Activity.Refines rule) (session engine asked p).calls
        (session engine' asked p').calls := by
  induction asked generalizing p p' with
  | nil => exact ⟨rfl, h, .nil⟩
  | cons first rest ih =>
    obtain ⟨hanswer, hbeside, hcalls⟩ := invoke_beside hengine hinert h first.1 first.2
    obtain ⟨hanswers, hended, hlater⟩ := ih hbeside
    exact ⟨congrArg₂ List.cons hanswer hanswers, hended, hcalls.append hlater⟩

private theorem finish_beside (h : p.Beside rule place p') :
    finish p' = ((finish p).1.map fun report => { report with aborted := p'.run.aborted },
      (finish p).2) := by
  obtain ⟨run, stage⟩ := p
  obtain ⟨run', stage'⟩ := p'
  obtain rfl : stage' = stage := h.stage
  have hid : run'.id = run.id := h.id
  have hfired : run'.fired = run.fired := h.fired
  have hcancelled : run'.cancelled = run.cancelled := h.cancelled
  simp only [finish, drop, Progress.withStore, hid, hfired, hcancelled]
  rcases RecordKeeper.readRun stage'.store run.id with failure | records
  · rfl
  · dsimp only
    rcases RecordKeeper.forgetRun stage'.store run.id with ⟨_ | _, store⟩ <;> rfl

end Run

def Engine.insertRule (engine : Engine σ) (place : Nat) (rule : Rule σ) : Engine σ :=
  { engine with rules := engine.rules.insertIdx place rule }

private theorem Engine.beside_insertRule {engine : Engine σ} {place : Nat}
    (h : place ≤ engine.rules.length) (rule : Rule σ) :
    engine.Beside (engine.insertRule place rule) rule place where
  registry := rfl
  config := rfl
  rules := by
    refine ⟨engine.rules.take place, engine.rules.drop place, List.length_take_of_le h,
      (List.take_append_drop place engine.rules).symm, ?_⟩
    exact List.ext_getElem (by grind [insertRule]) (by grind [insertRule])

private theorem Run.start_beside (stage : Stage σ π) (rule : Rule σ) (place : Nat) :
    (Run.start stage none).Beside rule place (Run.start stage none) where
  stage := rfl
  id := rfl
  seen := rfl
  fired := rfl
  cancelled := rfl
  cancel := rfl
  cancel' := rfl
  before _ _ := rfl
  after _ _ := rfl
  aborted := .nil

/-- A session with a further rule does what the session without it does: the same answers, the same
actions with the same inputs in the same worlds, the same records, the same count of firings. All
that the rule adds are calls of its clause and aborted branches of its own. -/
structure Session.AddsOnly [RecordKeeper π] (registry : Registry σ) (rule : Rule σ)
    (plain further : Session σ π) : Prop where
  answers : further.answers = plain.answers
  calls : Interspersed (Activity.Refines rule) plain.calls further.calls
  performed : performances registry further.calls = performances registry plain.calls
  stage : further.progress.stage = plain.progress.stage
  fired : further.progress.run.fired = plain.progress.run.fired
  aborted : Interspersed (fun branch => branch.rule = rule.name) plain.progress.run.aborted
    further.progress.run.aborted
  finish : Run.finish further.progress =
    ((Run.finish plain.progress).1.map fun report =>
      { report with aborted := further.progress.run.aborted }, (Run.finish plain.progress).2)

/-- A rule that never comes to anything disturbs nothing, wherever it stands among the rules and
whatever is invoked in a run. -/
theorem Rule.Inert.disturbs_nothing [RecordKeeper π] {rule : Rule σ} (hinert : rule.Inert)
    (engine : Engine σ) {place : Nat} (hplace : place ≤ engine.rules.length) (stage : Stage σ π)
    (asked : List (ActionId × Payload)) :
    Session.AddsOnly engine.registry rule (Run.session engine asked (Run.start stage none))
      (Run.session (engine.insertRule place rule) asked (Run.start stage none)) := by
  obtain ⟨hanswers, hbeside, hcalls⟩ := Run.session_beside (Engine.beside_insertRule hplace rule)
    hinert (Run.start_beside stage rule place) asked
  exact {
    answers := hanswers
    calls := hcalls
    performed := hcalls.filterMap_eq (by rintro _ ⟨frames, world, rfl⟩; rfl)
    stage := hbeside.stage
    fired := hbeside.fired
    aborted := hbeside.aborted
    finish := Run.finish_beside hbeside }

def Rule.mute : Rule Unit :=
  { name := "Mute"
    scope := .empty
    clauses :=
      { whenPatterns := [.of ⟨0⟩]
        whereClause := some fun _ world => (.failed (.other "mute"), world)
        thenPatterns := [.of ⟨0⟩] } }

/-- Before the rule that says something whenever something was said, the mute rule adds its own
aborted branch to the other's, and nothing else. -/
theorem mute_disturbs_nothing :
    let engine := Engine.echo [.again] {}
    let opened : Progress Unit RecordStore := Run.start ⟨(), .empty, 0⟩ none
    let plain := Run.session engine [(⟨0⟩, [])] opened
    let further := Run.session (engine.insertRule 0 .mute) [(⟨0⟩, [])] opened
    Rule.mute.Inert ∧ 0 ≤ engine.rules.length ∧
      Session.AddsOnly engine.registry .mute plain further ∧
      further.progress.run.aborted =
        [⟨"Mute", 1, .callback "mute"⟩, ⟨"Again", 1, .cycleDetected "Echo.say"⟩] := by
  intro engine opened plain further
  have hinert : Rule.mute.Inert := ⟨_, rfl, fun _ _ => ⟨rfl, .inl ⟨_, rfl⟩⟩⟩
  refine ⟨hinert, by decide, hinert.disturbs_nothing engine (by decide) _ _, ?_⟩
  obtain ⟨l, hopening⟩ : ∃ l, Run.opening (engine.insertRule 0 .mute) ⟨0⟩ [] opened = some l :=
    ⟨_, rfl⟩
  obtain ⟨result, hrun, haborted⟩ : ∃ result,
      l.run (engine.insertRule 0 .mute) 5 = some result ∧ result.2.run.aborted =
        [⟨"Mute", 1, .callback "mute"⟩, ⟨"Again", 1, .cycleDetected "Echo.say"⟩] := by
    cases hopening
    exact ⟨_, rfl, rfl⟩
  change (Run.invoke (engine.insertRule 0 .mute) ⟨0⟩ [] opened).2.run.aborted = _
  rw [Run.invoke_of_opening hopening, (Loop.of_run hrun).1, haborted]

end ConceptSync
