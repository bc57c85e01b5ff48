import ConceptSync.Proofs.Engine.Accounting
import ConceptSync.Proofs.Engine.Demands
import ConceptSync.Proofs.Engine.Handing
import ConceptSync.Proofs.Engine.Keeping
import ConceptSync.Proofs.Engine.Redelivery

set_option autoImplicit false
set_option relaxedAutoImplicit false

/-!
Runs that are cancelled. What a run does until a flag stops it is the beginning of what it does when
nobody can stop it. The flag may be set at any moment, by the actions of the run itself or from
outside.
-/

namespace ConceptSync

variable {σ α : Type}

/-- Actions and refinements take no notice of the world beyond a view of it: what they come to, and
what they make of the view, depends on the view alone. -/
structure Engine.SeesOnly (engine : Engine σ) (view : σ → α) : Prop where
  performs : ∀ action input world world', view world = view world' →
    (engine.registry.perform action input world).1 =
        (engine.registry.perform action input world').1 ∧
      view (engine.registry.perform action input world).2 =
        view (engine.registry.perform action input world').2
  refines : ∀ rule ∈ engine.rules, ∀ clause ∈ rule.clauses.whereClause, ∀ frames world world',
    view world = view world' →
    (clause frames world).1 = (clause frames world').1 ∧
      view (clause frames world).2 = view (clause frames world').2

private theorem Engine.SeesOnly.refine_eq {engine : Engine σ} {view : σ → α}
    (h : engine.SeesOnly view)
    {rule : Rule σ} (hrule : rule ∈ engine.rules) (frames : List Frame) {world world' : σ}
    (hview : view world = view world') :
    (refine rule frames world).1 = (refine rule frames world').1 ∧
      view (refine rule frames world).2 = view (refine rule frames world').2 :=
  refine_congr view hview fun clause hclause =>
    h.refines rule hrule clause hclause frames world world' hview

def Progress.unstopped (p : Progress σ RecordStore) (world : σ) : Progress σ RecordStore :=
  ⟨{ p.run with cancel := none }, { p.stage with world }⟩

section Step

variable {engine : Engine σ} {view : σ → α} {p : Progress σ RecordStore} {world : σ}

def Work.StepsUnstopped (work : Work σ) (engine : Engine σ) (view : σ → α)
    (p : Progress σ RecordStore) (world : σ) : Prop :=
  ∃ after, step engine work (p.unstopped world) =
      ((step engine work p).1, (step engine work p).2.unstopped after) ∧
    view after = view (step engine work p).2.stage.world ∧
    performances engine.registry (work.activities engine (p.unstopped world)) =
      performances engine.registry (work.activities engine p)

private theorem unstopped_complete (hview : view world = view p.stage.world) (action : ActionId)
    (record : Record) : (Work.complete action record).StepsUnstopped engine view p world := by
  refine ⟨world, ?_, ?_, rfl⟩ <;> by_cases hseen : record.id ∈ p.run.seen <;>
    simp [step, completeRecord, Progress.unstopped, Progress.withRun, hseen, hview]

private theorem unstopped_evaluate (hsees : engine.SeesOnly view)
    (hview : view world = view p.stage.world) {rule : Rule σ} (hrule : rule ∈ engine.rules)
    (frames : List Frame) (trigger : Record) :
    (Work.evaluate rule frames trigger).StepsUnstopped engine view p world := by
  obtain ⟨hanswer, hkept⟩ := hsees.refine_eq hrule frames hview
  rcases hfirst : refine rule frames world with ⟨refined, after⟩
  rcases hsecond : refine rule frames p.stage.world with ⟨refined', after'⟩
  rw [hfirst, hsecond] at hanswer hkept
  cases hanswer
  have hcalls : performances engine.registry
      (Work.activities engine (.evaluate rule frames trigger) (p.unstopped world)) =
      performances engine.registry (Work.activities engine (.evaluate rule frames trigger) p) := by
    simp only [Work.activities, Rule.refinementCall]
    split <;> rfl
  refine ⟨after, ?_, ?_, hcalls⟩ <;>
    simp only [step, evaluateFiring, Progress.unstopped, hfirst, hsecond]
  · cases refined with
    | broken b => rfl
    | error e => rfl
    | frames left =>
      cases left with
      | nil => rfl
      | cons f rest => simp only [resolveFrames_eq_flatMap]; rfl
  · cases refined with
    | broken b => exact hkept
    | error e => exact hkept
    | frames left => cases left <;> exact hkept

private theorem unstopped_perform (hsees : engine.SeesOnly view)
    (hview : view world = view p.stage.world) (rule : Rule σ) (action : ActionId)
    (input : Payload) (trigger : Record) :
    ∃ after, performInvocation engine rule action input trigger (p.unstopped world) =
        ((performInvocation engine rule action input trigger p).1,
          (performInvocation engine rule action input trigger p).2.unstopped after) ∧
      view after = view (performInvocation engine rule action input trigger p).2.stage.world := by
  obtain ⟨hanswer, hkept⟩ := hsees.performs action input _ _ hview
  rcases hfirst : engine.registry.perform action input world with ⟨outcome, after⟩
  rcases hsecond : engine.registry.perform action input p.stage.world with ⟨outcome', after'⟩
  rw [hfirst, hsecond] at hanswer hkept
  cases hanswer
  simp only [performInvocation, Progress.unstopped, hfirst, hsecond]
  cases outcome with
  | broken b => exact ⟨after, rfl, hkept⟩
  | failed failure => exact ⟨after, rfl, hkept⟩
  | ok output =>
    dsimp only
    rcases RecordKeeper.persistChild p.stage.store trigger.seq
      ⟨engine.registry.nameOf action, input, output, some p.run.id, trigger.depth + 1⟩ with
      ⟨_ | _, _⟩ <;> exact ⟨after, rfl, hkept⟩

private theorem unstopped_invoke (hsees : engine.SeesOnly view)
    (hview : view world = view p.stage.world) (rule : Rule σ) (action : ActionId)
    (input : Payload) (trigger : Record) :
    (Work.invoke rule action input trigger).StepsUnstopped engine view p world := by
  have hperformed := unstopped_perform hsees hview rule action input trigger
  have hanswer := (hsees.performs action input _ _ hview).1
  have hrefusal : refusal engine (engine.registry.nameOf action) input trigger
      (p.unstopped world).stage.store =
        refusal engine (engine.registry.nameOf action) input trigger p.stage.store := rfl
  simp only [Work.StepsUnstopped, step, dispatch, Work.activities, hrefusal]
  rcases refusal engine (engine.registry.nameOf action) input trigger p.stage.store with
    failure | _ | error
  · exact ⟨world, rfl, hview, rfl⟩
  · obtain ⟨after, hstep, hkept⟩ := hperformed
    exact ⟨after, hstep, hkept, by simp [performances, Progress.unstopped, hanswer]⟩
  · exact ⟨world, rfl, hview, rfl⟩

private theorem step_unstopped (hsees : engine.SeesOnly view)
    (hview : view world = view p.stage.world) {work : Work σ}
    (hrule : ∀ rule frames trigger, work = .evaluate rule frames trigger → rule ∈ engine.rules) :
    work.StepsUnstopped engine view p world := by
  cases work with
  | complete action record => exact unstopped_complete hview action record
  | evaluate rule frames trigger =>
    exact unstopped_evaluate hsees hview (hrule rule frames trigger rfl) frames trigger
  | invoke rule action input trigger => exact unstopped_invoke hsees hview rule action input trigger

private theorem aborted_step (engine : Engine σ) (work : Work σ) (p : Progress σ RecordStore) :
    p.run.aborted <+: (step engine work p).2.run.aborted := by
  cases work with
  | complete action record =>
    simp only [step, completeRecord]
    split <;> exact List.prefix_rfl
  | evaluate rule frames trigger =>
    simp only [step, evaluateFiring]
    split
    · exact List.prefix_rfl
    · exact List.prefix_append _ _
    · exact List.prefix_rfl
    · rw [resolveFrames_eq_flatMap]
      exact List.prefix_append _ _
  | invoke rule action input trigger =>
    simp only [step, dispatch]
    split
    · exact List.prefix_rfl
    · exact List.prefix_append _ _
    · simp only [performInvocation]
      split
      · exact List.prefix_rfl
      · exact List.prefix_append _ _
      · split <;> exact List.prefix_rfl

end Step

namespace Loop

def unstopped (l : Loop σ RecordStore) (world : σ) : Loop σ RecordStore :=
  ⟨l.stack, l.progress.unstopped world⟩

/-- A loop is turned while the world around it changes in what the view does not show, at any time
between two turns. The turns make these calls. -/
inductive Goes (engine : Engine σ) (view : σ → α) (l : Loop σ RecordStore) :
    List (Activity σ) → Loop σ RecordStore → Prop
  | refl : Goes engine view l [] l
  | outside {calls : List (Activity σ)} {l' : Loop σ RecordStore} (world : σ) :
      Goes engine view l calls l' → view world = view l'.progress.stage.world →
      Goes engine view l calls ⟨l'.stack, l'.progress.withWorld world⟩
  | turn {calls : List (Activity σ)} {l' l'' : Loop σ RecordStore} :
      Goes engine view l calls l' → l'.turn engine = .inl l'' →
      Goes engine view l (calls ++ l'.turnCalls engine) l''

variable {engine : Engine σ} {view : σ → α} {l l' : Loop σ RecordStore} {calls : List (Activity σ)}
  {world : σ}

private theorem Goes.head (hturn : l.turn engine = .inl l') {l'' : Loop σ RecordStore}
    (h : l'.Goes engine view calls l'') :
    l.Goes engine view (l.turnCalls engine ++ calls) l'' := by
  induction h with
  | refl =>
    have hfirst : l.Goes engine view ([] ++ l.turnCalls engine) l' := .turn .refl hturn
    simpa using hfirst
  | outside world _ hview ih => exact ih.outside world hview
  | turn _ hlater ih => exact List.append_assoc .. ▸ ih.turn hlater

private theorem goes_drain (engine : Engine σ) (view : σ → α) (l : Loop σ RecordStore) :
    ∃ calls l', l.Goes engine view calls l' ∧
      l'.turn engine = .inr (drain engine l.stack l.progress) ∧
      l.activities engine = calls ++ l'.turnCalls engine := by
  induction l using (wellFounded_turn RecordStore engine).induction with | h l ih => ?_
  rw [drain_eq_turn, activities_eq_turn]
  cases hturn : l.turn engine with
  | inl l' =>
    obtain ⟨calls, l'', hgoes, hends, hcalls⟩ := ih l' hturn
    refine ⟨_, l'', hgoes.head hturn, hends, ?_⟩
    simp only [hcalls, List.append_assoc]
    rfl
  | inr result => exact ⟨[], l, .refl, hturn, List.append_nil _⟩

namespace Goes

private theorem course (h : l.Goes engine view calls l') {ms : List (Matching σ)}
    (hcourse : Run.Course engine False ms l) : ∃ all, Run.Course engine False all l' := by
  induction h with
  | refl => exact ⟨ms, hcourse⟩
  | @outside calls l' world _ _ ih =>
    obtain ⟨all, hcourse⟩ := ih
    have hpass : RecordStore.Call.Elsewhere l'.progress.run.id
      (.tick l'.progress.stage.store.clock) := trivial
    exact ⟨all, hcourse.elsewhere world l'.progress.stage.runs hpass⟩
  | turn _ hturn ih =>
    obtain ⟨all, hcourse⟩ := ih
    exact ⟨_, hcourse.turn hturn⟩

private theorem told (h : l.Goes engine view calls l') {ms : List (Matching σ)}
    (hcourse : Run.Course engine False ms l) :
    l'.progress.records.map Record.told =
      l.progress.records.map Record.told ++ completedOf engine.registry calls := by
  induction h with
  | refl => exact (List.append_nil _).symm
  | outside _ _ _ ih => exact ih
  | turn hgoes hturn ih =>
    obtain ⟨all, hcourse⟩ := hgoes.course hcourse
    rw [hcourse.told_turn hturn, ih, completedOf_append, List.append_assoc]

private theorem live (h : l.Goes engine view calls l') (hlive : l.progress.run.cancelled = false) :
    l'.progress.run.cancelled = false := by
  induction h with
  | refl => exact hlive
  | outside _ _ _ ih => exact ih
  | @turn _ l' _ _ hturn ih =>
    obtain ⟨work, _, _, _, _, hstep, _⟩ := turn_cases hturn
    have hkept := cancelled_step engine work l'.progress
    rw [hstep] at hkept
    exact hkept.trans ih

end Goes

section Unstopped

variable {ms : List (Matching σ)}

private theorem rule_of_queued (hcourse : Run.Course engine False ms l) {work : Work σ}
    (hqueued : work ∈ l.stack) (rule : Rule σ) (frames : List Frame) (trigger : Record)
    (hwork : work = .evaluate rule frames trigger) : rule ∈ engine.rules := by
  subst hwork
  obtain ⟨k, hk, _⟩ := hcourse.handed_of_queued hqueued
  exact List.mem_of_getElem? hk

private theorem next_unstopped {work : Work σ} {rest : List (Work σ)}
    (hstack : l.stack = work :: rest) :
    (l.unstopped world).next? = some (work, (l.unstopped world).progress) := by
  simp [next?, unstopped, hstack, Progress.isCancelled, Progress.unstopped]

private theorem turn_unstopped (hsees : engine.SeesOnly view)
    (hcourse : Run.Course engine False ms l) (hview : view world = view l.progress.stage.world)
    (hturn : l.turn engine = .inl l') :
    ∃ after, (l.unstopped world).turn engine = .inl (l'.unstopped after) ∧
      view after = view l'.progress.stage.world ∧
      performances engine.registry ((l.unstopped world).turnCalls engine) =
        performances engine.registry (l.turnCalls engine) := by
  obtain ⟨work, rest, next, hstack, hnext, hstep, hstack'⟩ := turn_cases hturn
  have hqueued : work ∈ l.stack := by simp [hstack]
  obtain ⟨after, hsame, hkept, hcalls⟩ :=
    step_unstopped hsees hview (rule_of_queued hcourse hqueued)
  rw [hstep] at hsame hkept
  have hfree : (l.unstopped world).stack = work :: rest := hstack
  refine ⟨after, ?_, hkept, ?_⟩
  · rw [turn_of_step rfl hfree hsame, ← hstack']
    rfl
  · rw [turnCalls_of_next (next_unstopped hstack), turnCalls_of_next hnext]
    exact hcalls

private theorem Goes.unstopped (hsees : engine.SeesOnly view) (h : l.Goes engine view calls l')
    (hcourse : Run.Course engine False ms l) (hview : view world = view l.progress.stage.world) :
    ∃ after, Reaches engine (l.unstopped world) (l'.unstopped after) ∧
      view after = view l'.progress.stage.world ∧
      performances engine.registry ((l.unstopped world).activities engine) =
        performances engine.registry calls ++
          performances engine.registry ((l'.unstopped after).activities engine) := by
  induction h with
  | refl => exact ⟨world, .refl, hview, rfl⟩
  | outside changed _ hchanged ih =>
    obtain ⟨after, hreach, hkept, hcalls⟩ := ih
    exact ⟨after, hreach, hkept.trans hchanged.symm, hcalls⟩
  | @turn calls l' l'' hgoes hturn ih =>
    obtain ⟨before, hreach, hbefore, hcalls⟩ := ih
    obtain ⟨all, hcourse⟩ := hgoes.course hcourse
    obtain ⟨after, hsame, hkept, hmade⟩ := turn_unstopped hsees hcourse hbefore hturn
    refine ⟨after, hreach.tail hsame, hkept, ?_⟩
    rw [hcalls, activities_eq_turn, hsame, performances_append, performances_append,
      List.append_assoc, ← hmade]
    rfl

private theorem records_drain (hcourse : Run.Course engine False ms l) :
    l.progress.records <+: (drain engine l.stack l.progress).2.records := by
  refine drain_of_kept engine
    (I := fun l' => (∃ all, Run.Course engine False all l') ∧
      l.progress.records <+: l'.progress.records)
    (P := fun q => l.progress.records <+: q.records) ?_ ?_ ⟨⟨ms, hcourse⟩, List.prefix_rfl⟩
  · rintro l₁ l₂ ⟨⟨all, hcourse⟩, hbefore⟩ hturn
    refine ⟨⟨_, hcourse.turn hturn⟩, hbefore.trans ?_⟩
    obtain ⟨_, _, _, _, ⟨hsame, _⟩ | ⟨_, _, _, _, _, _, _, hkept⟩⟩ := hcourse.records_turn hturn
    · exact hsame ▸ List.prefix_rfl
    · exact hkept.records ▸ List.prefix_append _ _
  · rintro l₁ ⟨result, q⟩ ⟨⟨all, hcourse⟩, hbefore⟩ hturn
    exact hcourse.records_ended hturn ▸ hbefore

private theorem aborted_drain (engine : Engine σ) (l : Loop σ RecordStore) :
    l.progress.run.aborted <+: (drain engine l.stack l.progress).2.run.aborted := by
  refine drain_of_kept engine
    (I := fun l' => l.progress.run.aborted <+: l'.progress.run.aborted)
    (P := fun q => l.progress.run.aborted <+: q.run.aborted) ?_ ?_ List.prefix_rfl
  · intro l₁ l₂ hbefore hturn
    obtain ⟨work, _, _, _, _, hstep, _⟩ := turn_cases hturn
    have hstepped := aborted_step engine work l₁.progress
    rw [hstep] at hstepped
    exact hbefore.trans hstepped
  · intro l₁ result hbefore hturn
    rcases turn_ends hturn with ⟨_, _, rfl⟩ | ⟨_, _, rfl⟩ | ⟨work, _, _, _, _, hstep, _⟩
    · exact hbefore
    · exact hbefore
    · have hstepped := aborted_step engine work l₁.progress
      rw [hstep] at hstepped
      exact hbefore.trans hstepped

private theorem ended_unstopped (hsees : engine.SeesOnly view)
    (hcourse : Run.Course engine False ms l) {all : List (Matching σ)}
    (hfree : Run.Course engine False all (l.unstopped world))
    (hview : view world = view l.progress.stage.world) {result : Except Halt Unit}
    {q : Progress σ RecordStore} (hturn : l.turn engine = .inr (result, q)) :
    let free := drain engine (l.unstopped world).stack (l.unstopped world).progress
    q.records <+: free.2.records ∧ q.run.aborted <+: free.2.run.aborted ∧
      performances engine.registry (l.turnCalls engine) <+:
        performances engine.registry ((l.unstopped world).activities engine) := by
  have hnothing (hnext : l.next? = none) :
      performances engine.registry (l.turnCalls engine) = [] := by
    simp [turnCalls, hnext, performances]
  rcases turn_ends hturn with ⟨hnext, _, heq⟩ | ⟨hnext, _, heq⟩ |
    ⟨work, rest, halt, hstack, hnext, hstep, hhalt⟩
  · cases heq
    refine ⟨records_drain hfree, aborted_drain engine (l.unstopped world), ?_⟩
    exact hnothing hnext ▸ List.nil_prefix
  · cases heq
    refine ⟨records_drain hfree, aborted_drain engine (l.unstopped world), ?_⟩
    exact hnothing hnext ▸ List.nil_prefix
  · have hqueued : work ∈ l.stack := by simp [hstack]
    obtain ⟨after, hsame, -, hcalls⟩ :=
      step_unstopped hsees hview (rule_of_queued hcourse hqueued)
    rw [hstep] at hsame
    have hends : (l.unstopped world).turn engine = .inr (.error halt, q.unstopped after) := by
      simp only [turn, unstopped, hstack]
      rw [if_neg (by simp [Progress.isCancelled, Progress.unstopped]), hsame]
    have hlast : (l.unstopped world).activities engine = (l.unstopped world).turnCalls engine := by
      rw [activities_eq_turn, hends]
      exact List.append_nil _
    rw [drain_eq_turn, hends, hlast, turnCalls_of_next (next_unstopped hstack),
      turnCalls_of_next hnext]
    exact ⟨List.prefix_rfl, List.prefix_rfl, hcalls ▸ List.prefix_rfl⟩

private theorem cancelled_iff (hlive : l.progress.run.cancelled = false)
    {q : Progress σ RecordStore} (hturn : l.turn engine = .inr (.ok (), q)) :
    q.run.cancelled = true ↔ l.stack ≠ [] := by
  rcases turn_ends hturn with ⟨_, hstack, heq⟩ | ⟨_, _, heq⟩ | ⟨_, _, _, _, _, _, hhalt⟩
  · cases heq
    simp [hlive, hstack]
  · cases heq
    refine ⟨fun _ hstack => ?_, fun _ => rfl⟩
    simp only [turn, hstack, Sum.inr.injEq, Prod.mk.injEq, true_and] at hturn
    rw [hturn] at hlive
    cases hlive
  · cases hhalt

end Unstopped

end Loop

def Engine.rootCalls (engine : Engine σ) (action : ActionId) (input : Payload) (world : σ) :
    List (Activity σ) :=
  if engine.registry.kind? action = some .action then [.performed action input world] else []

namespace Run

variable {engine : Engine σ} {view : σ → α} {p : Progress σ RecordStore} {world : σ}

private theorem opening_unstopped (hsees : engine.SeesOnly view)
    (hview : view world = view p.stage.world) (action : ActionId) (input : Payload) :
    opening engine action input (p.unstopped world) =
      (opening engine action input p).map fun l =>
        l.unstopped (engine.registry.perform action input world).2 := by
  obtain ⟨hanswer, -⟩ := hsees.performs action input _ _ hview
  rcases hfirst : engine.registry.perform action input world with ⟨outcome, after⟩
  rcases hsecond : engine.registry.perform action input p.stage.world with ⟨outcome', after'⟩
  rw [hfirst, hsecond] at hanswer
  cases hanswer
  unfold opening
  split
  · rfl
  · simp only [Progress.unstopped, hfirst, hsecond]
    cases outcome with
    | broken b => rfl
    | failed failure => rfl
    | ok output =>
      dsimp only
      rcases RecordKeeper.persist p.stage.store
        ⟨engine.registry.nameOf action, input, output, some p.run.id, 0⟩ with ⟨_ | _, _⟩ <;> rfl

private theorem begin_unstopped (hsees : engine.SeesOnly view)
    (hview : view world = view p.stage.world) (action : ActionId) (input : Payload) :
    ∃ after, (Demand.invoke action input).begin engine (p.unstopped world) =
        ((Demand.invoke action input).begin engine p).unstopped after ∧
      view after = view ((Demand.invoke action input).begin engine p).progress.stage.world := by
  obtain ⟨-, hkept⟩ := hsees.performs action input _ _ hview
  have hopens := opening_unstopped hsees hview action input
  simp only [Demand.begin, hopens]
  cases hopening : opening engine action input p with
  | none =>
    rw [hopening] at hopens
    simp only [Option.map_none, Option.getD_none, invoke_of_no_opening hopening,
      invoke_of_no_opening hopens]
    refine ⟨_, rfl, ?_⟩
    simp only [Progress.withWorld]
    split
    · exact hkept
    · exact hview
  | some l =>
    obtain ⟨_, _, _, _, _, _, hperform⟩ := opening_cases hopening
    rw [hperform] at hkept
    exact ⟨_, rfl, hkept⟩

private theorem course_begin {ms : List (Matching σ)} (h : Course engine False ms ⟨[], p⟩)
    (action : ActionId) (input : Payload) :
    Course engine False ms ((Demand.invoke action input).begin engine p) := by
  simp only [Demand.begin]
  cases hopening : opening engine action input p with
  | none =>
    rw [Option.getD_none, invoke_of_no_opening hopening]
    have hpass : RecordStore.Call.Elsewhere p.run.id (.tick p.stage.store.clock) := trivial
    exact h.elsewhere _ p.stage.runs hpass
  | some l => exact h.invoke action input hopening

private theorem run_begin (action : ActionId) (input : Payload) :
    ((Demand.invoke action input).begin engine p).progress.run = p.run := by
  simp only [Demand.begin]
  cases hopening : opening engine action input p with
  | none => rw [Option.getD_none, invoke_of_no_opening hopening]; rfl
  | some l =>
    obtain ⟨_, _, _, hrun, _⟩ := opening_cases hopening
    exact hrun

private theorem told_begin (engine : Engine σ) (hstore : p.stage.store.Reachable)
    (action : ActionId) (input : Payload) :
    ((Demand.invoke action input).begin engine p).progress.records.map Record.told =
      p.records.map Record.told ++
        completedOf engine.registry (engine.rootCalls action input p.stage.world) := by
  simp only [Demand.begin]
  cases hopening : opening engine action input p with
  | none =>
    rw [Option.getD_none, invoke_of_no_opening hopening]
    have hnone : completedOf engine.registry
        (engine.rootCalls action input p.stage.world) = [] := by
      unfold Engine.rootCalls
      split
      · next hkind =>
        rcases hperform : engine.registry.perform action input p.stage.world with ⟨outcome, after⟩
        cases outcome with
        | ok output =>
          obtain ⟨l, hopens⟩ := opening_of_perform hkind hperform
          cases hopening.symm.trans hopens
        | _ => simp [completedOf, performances, hperform]
      · rfl
    rw [hnone, List.append_nil]
    rfl
  | some l =>
    obtain ⟨_, _, _, _, _, hkind, _⟩ := opening_cases hopening
    obtain ⟨root, hopened⟩ := opened hstore hopening
    rw [Option.getD_some, hopened.records, List.map_append, Engine.rootCalls, if_pos hkind]
    simp [completedOf, performances, hopened.performed, Record.told, hopened.action, hopened.input]

private theorem activities_eq_begin (engine : Engine σ) (action : ActionId) (input : Payload)
    (stage : Stage σ RecordStore) :
    engine.activities action input stage = engine.rootCalls action input stage.world ++
      ((Demand.invoke action input).begin engine (start stage none)).activities engine := by
  have hidle (q : Progress σ RecordStore) : Loop.activities engine ⟨[], q⟩ = [] := by
    simp [Loop.activities_eq_turn, Loop.turn, Loop.next?]
  simp only [Engine.activities, Engine.rootCalls, Demand.begin]
  cases hopening : opening engine action input (start stage none) with
  | none => split <;> simp [hidle]
  | some l =>
    obtain ⟨_, _, _, _, _, hkind, _⟩ := opening_cases hopening
    simp [hkind]

private theorem performances_rootCalls (hsees : engine.SeesOnly view) {world' : σ}
    (hview : view world = view world') (action : ActionId) (input : Payload) :
    performances engine.registry (engine.rootCalls action input world) =
      performances engine.registry (engine.rootCalls action input world') := by
  unfold Engine.rootCalls
  split
  · simp [performances, (hsees.performs action input _ _ hview).1]
  · rfl

/-- An invocation from outside in a run of its own that a flag stops, while the world around it
changes at any time in what the view does not show. It makes these calls, and this work is left when
it ends. -/
inductive InvokesAmid (engine : Engine σ) (view : σ → α) (flag : σ → Bool) (action : ActionId)
    (input : Payload) (stage : Stage σ RecordStore) :
    List (Activity σ) → List (Work σ) → Except Halt Unit × Progress σ RecordStore → Prop
  | ends {world : σ} {calls : List (Activity σ)} {l : Loop σ RecordStore}
      {ended : Except Halt Unit × Progress σ RecordStore} : view world = view stage.world →
      Loop.Goes engine view
        ((Demand.invoke action input).begin engine (start { stage with world } (some flag)))
        calls l →
      l.turn engine = .inr ended →
      InvokesAmid engine view flag action input stage
        (engine.rootCalls action input world ++ (calls ++ l.turnCalls engine)) l.stack ended

private theorem invokesAmid_invoke (engine : Engine σ) (view : σ → α) (flag : σ → Bool)
    (action : ActionId) (input : Payload) (stage : Stage σ RecordStore) :
    ∃ calls left ended, InvokesAmid engine view flag action input stage calls left ended ∧
      ended.2 = (invoke engine action input (start stage (some flag))).2 := by
  obtain ⟨calls, l, hgoes, hends, -⟩ := Loop.goes_drain engine view
    ((Demand.invoke action input).begin engine (start stage (some flag)))
  exact ⟨_, _, _, .ends rfl hgoes hends, Demand.drain_begin engine _ _⟩

/-- A run that was stopped, beside the same run when nobody can stop it: what it performed, recorded
and gave up is the beginning of what that one did, from the action of the invocation on. Its report
tells of what it performed, and says that it was cancelled if work was left. -/
structure CutShort (engine : Engine σ) (view : σ → α) (action : ActionId) (input : Payload)
    (stage : Stage σ RecordStore) (calls : List (Activity σ)) (left : List (Work σ))
    (ended : Except Halt Unit × Progress σ RecordStore) : Prop where
  performed : performances engine.registry calls <+:
    performances engine.registry (engine.activities action input stage)
  records : ended.2.records <+: (invoke engine action input (start stage none)).2.records
  aborted : ended.2.run.aborted <+: (invoke engine action input (start stage none)).2.run.aborted
  root : engine.registry.kind? action = some .action → ∃ world later,
    view world = view stage.world ∧ calls = .performed action input world :: later ∧
    ∀ output, (engine.registry.perform action input stage.world).1 = .ok output →
      ∃ first rest, ended.2.records = first :: rest ∧
        first.told = (engine.registry.nameOf action, input, output)
  reported : ∃ report, (finish ended.2).1 = .ok report ∧ report.records = ended.2.records ∧
    report.records.map Record.told = completedOf engine.registry calls ∧
    report.aborted = ended.2.run.aborted ∧
    (ended.1 = .ok () → (report.cancelled = true ↔ left ≠ []))

section CutShort

variable {stage : Stage σ RecordStore} {flag : σ → Bool} {action : ActionId} {input : Payload}
  {calls : List (Activity σ)} {left : List (Work σ)}
  {ended : Except Halt Unit × Progress σ RecordStore}

private theorem course_started (engine : Engine σ) (hstore : stage.store.Reachable)
    (hfresh : ∀ r ∈ stage.store.records, r.run ≠ (start stage none).run.id) (world : σ)
    (flag : Option (σ → Bool)) (action : ActionId) (input : Payload) :
    Course engine False []
      ((Demand.invoke action input).begin engine (start { stage with world } flag)) :=
  course_begin (p := start { stage with world } flag) (.start hstore hfresh) action input

private theorem InvokesAmid.told (hstore : stage.store.Reachable)
    (hfresh : ∀ r ∈ stage.store.records, r.run ≠ (start stage none).run.id)
    (h : InvokesAmid engine view flag action input stage calls left ended) :
    ended.2.records.map Record.told = completedOf engine.registry calls := by
  obtain @⟨world, calls, l, ⟨result, q⟩, hworld, hgoes, hends⟩ := h
  have hbegun := course_started engine hstore hfresh world (some flag) action input
  obtain ⟨all, hcourse⟩ := hgoes.course hbegun
  have hnone : (start { stage with world } (some flag)).records = [] := records_start hfresh
  have hroot := told_begin (p := start { stage with world } (some flag)) engine hstore action input
  rw [hnone] at hroot
  rw [hcourse.told_ended hends, hgoes.told hbegun, hroot, completedOf_append, completedOf_append,
    List.append_assoc]
  rfl

private theorem InvokesAmid.root (hsees : engine.SeesOnly view) (hstore : stage.store.Reachable)
    (hfresh : ∀ r ∈ stage.store.records, r.run ≠ (start stage none).run.id)
    (h : InvokesAmid engine view flag action input stage calls left ended)
    (hkind : engine.registry.kind? action = some .action) :
    ∃ world later, view world = view stage.world ∧
      calls = .performed action input world :: later ∧
      ∀ output, (engine.registry.perform action input stage.world).1 = .ok output →
        ∃ first rest, ended.2.records = first :: rest ∧
          first.told = (engine.registry.nameOf action, input, output) := by
  have htold := h.told hstore hfresh
  obtain @⟨world, calls, l, ended, hworld, _, _⟩ := h
  rw [Engine.rootCalls, if_pos hkind, List.singleton_append] at htold ⊢
  refine ⟨world, _, hworld, rfl, fun output houtput => ?_⟩
  rw [← (hsees.performs action input _ _ hworld).1] at houtput
  have hfirst : completedOf engine.registry
      (.performed action input world :: (calls ++ l.turnCalls engine)) =
        (engine.registry.nameOf action, input, output) ::
          completedOf engine.registry (calls ++ l.turnCalls engine) := by
    simp [completedOf, performances, houtput]
  obtain ⟨first, rest, hrecords, htold, -⟩ := List.map_eq_cons_iff.mp (htold.trans hfirst)
  exact ⟨first, rest, hrecords, htold⟩

private theorem InvokesAmid.begins (hsees : engine.SeesOnly view)
    (hstore : stage.store.Reachable)
    (hfresh : ∀ r ∈ stage.store.records, r.run ≠ (start stage none).run.id)
    (h : InvokesAmid engine view flag action input stage calls left ended) :
    performances engine.registry calls <+:
        performances engine.registry (engine.activities action input stage) ∧
      ended.2.records <+: (invoke engine action input (start stage none)).2.records ∧
      ended.2.run.aborted <+: (invoke engine action input (start stage none)).2.run.aborted := by
  obtain @⟨world, calls, l, ⟨result, q⟩, hworld, hgoes, hends⟩ := h
  let stopped := start { stage with world } (some flag)
  -- the run and the same one that nobody can stop begin alike and go on alike
  have hbegun := course_started engine hstore hfresh world (some flag) action input
  have hfree := course_started engine hstore hfresh stage.world none action input
  obtain ⟨after, hbegin, hafter⟩ :=
    begin_unstopped (p := stopped) hsees hworld.symm action input
  obtain ⟨last, hreach, hlast, hperformed⟩ := hgoes.unstopped hsees hbegun hafter
  rw [← hbegin] at hreach hperformed
  obtain ⟨all, hcourse⟩ := hgoes.course hbegun
  obtain ⟨all', hcourse'⟩ := hfree.reaches hreach
  obtain ⟨hrecords, haborted, hmade⟩ :=
    Loop.ended_unstopped hsees hcourse hcourse' hlast hends
  have hmeets : drain engine (l.unstopped last).stack (l.unstopped last).progress = _ :=
    (Loop.drain_of_reaches hreach).symm
  have hend : (drain engine (l.unstopped last).stack (l.unstopped last).progress).2 =
      (invoke engine action input (start stage none)).2 :=
    (congrArg Prod.snd hmeets).trans (Demand.drain_begin engine (start stage none) _)
  refine ⟨?_, hend ▸ hrecords, hend ▸ haborted⟩
  rw [activities_eq_begin, performances_append, performances_append, performances_append,
    performances_rootCalls hsees hworld]
  refine (List.prefix_append_right_inj _).mpr ?_
  exact hperformed.symm ▸ (List.prefix_append_right_inj _).mpr hmade

end CutShort

/-- A run that is cancelled does the beginning of what it does when nobody can stop it, whenever the
flag is set. -/
theorem InvokesAmid.cutShort (hsees : engine.SeesOnly view) {stage : Stage σ RecordStore}
    (hstore : stage.store.Reachable)
    (hfresh : ∀ r ∈ stage.store.records, r.run ≠ (start stage none).run.id) {flag : σ → Bool}
    {action : ActionId} {input : Payload} {calls : List (Activity σ)} {left : List (Work σ)}
    {ended : Except Halt Unit × Progress σ RecordStore}
    (h : InvokesAmid engine view flag action input stage calls left ended) :
    CutShort engine view action input stage calls left ended := by
  obtain ⟨hperformed, hrecords, haborted⟩ := h.begins hsees hstore hfresh
  refine ⟨hperformed, hrecords, haborted, h.root hsees hstore hfresh, _, rfl, rfl,
    h.told hstore hfresh, rfl, fun hok => ?_⟩
  obtain @⟨world, calls, l, ⟨result, q⟩, _, hgoes, hends⟩ := h
  obtain rfl : result = .ok () := hok
  have hlive : l.progress.run.cancelled = false :=
    hgoes.live ((congrArg Run.cancelled (run_begin action input)).trans rfl)
  exact Loop.cancelled_iff hlive hends

end Run

def Engine.flagging (rules : List (Rule Bool)) (config : EngineConfig) : Engine Bool :=
  let concept : Concept Bool :=
    ⟨"Steps", [.action "a", .action "b", .action "c"],
      fun name input => if name = "b" then fun _ => (.ok input, true) else pure input,
      fun _ _ => pure []⟩
  ⟨⟨[⟨concept, .action "a", "Steps.a"⟩, ⟨concept, .action "b", "Steps.b"⟩,
    ⟨concept, .action "c", "Steps.c"⟩], [concept]⟩, rules, config⟩

def Rule.aThenBC : Rule Bool :=
  ⟨"AThenBC", .empty, { whenPatterns := [.of ⟨0⟩], thenPatterns := [.of ⟨1⟩, .of ⟨2⟩] }⟩

private theorem seesOnly_flagging :
    (Engine.flagging [.aThenBC] {}).SeesOnly fun _ : Bool => () := by
  refine ⟨fun action input world world' _ => ?_, fun rule hrule clause hclause => ?_⟩
  · obtain ⟨n⟩ := action
    rcases n with _ | _ | _ | n <;> exact ⟨rfl, rfl⟩
  · obtain rfl := List.mem_singleton.mp hrule
    cases hclause

/-- The second action stops the run before the third. -/
theorem Run.flagging_cutShort :
    let engine := Engine.flagging [.aThenBC] {}
    let stage : Stage Bool RecordStore := ⟨false, .empty, 0⟩
    ∃ calls left ended, engine.SeesOnly (fun _ => ()) ∧ stage.store.Reachable ∧
      (∀ r ∈ stage.store.records, r.run ≠ (start stage none).run.id) ∧
      InvokesAmid engine (fun _ => ()) (fun set => set) ⟨0⟩ [] stage calls left ended ∧
      ended.2.run.cancelled = true ∧ ended.2.records.length = 2 ∧
      CutShort engine (fun _ => ()) ⟨0⟩ [] stage calls left ended := by
  intro engine stage
  obtain ⟨calls, left, ended, hinvokes, hended⟩ :=
    invokesAmid_invoke engine (fun _ => ()) (fun set => set) ⟨0⟩ [] stage
  have hstopped : ((Run.opening engine ⟨0⟩ [] (start stage (some fun set => set))).bind fun l =>
      (l.run engine 10).map fun ended => (ended.2.run.cancelled, ended.2.records.length)) =
        some (true, 2) := by
    decide +kernel
  obtain ⟨l, hopening, hstopped⟩ := Option.bind_eq_some_iff.mp hstopped
  obtain ⟨result, hrun, hstopped⟩ := Option.map_eq_some_iff.mp hstopped
  obtain ⟨hcancelled, hlength⟩ := Prod.mk.inj hstopped
  rw [Run.invoke_of_opening hopening, (Loop.of_run hrun).1] at hended
  have hstore : stage.store.Reachable := ⟨[], rfl⟩
  have hfresh : ∀ r ∈ stage.store.records, r.run ≠ (start stage none).run.id := nofun
  exact ⟨calls, left, ended, seesOnly_flagging, hstore, hfresh, hinvokes, hended ▸ hcancelled,
    hended ▸ hlength, InvokesAmid.cutShort seesOnly_flagging hstore hfresh hinvokes⟩

end ConceptSync
