import ConceptSync.Proofs.Engine.Forest

set_option autoImplicit false
set_option relaxedAutoImplicit false

/-!
The cycle guard. What the store reads back as the causes of a completion is exactly its causal
chain, so an invocation is refused as a cycle just when it would repeat something on that chain;
hence no chain ever repeats an action with identical input.
-/

namespace ConceptSync

variable {σ : Type}

private theorem Grown.depth_lt {records : List Record} (h : Grown records) :
    ∀ r ∈ records, r.depth < records.length := by
  induction h with
  | nil => simp
  | @root records r _ _ hroot ih =>
    intro e he
    rw [List.length_append, List.length_singleton]
    rcases List.mem_append.mp he with hold | hnew
    · have := ih e hold
      omega
    · have := hroot.depth
      rw [List.mem_singleton.mp hnew]
      omega
  | @child records cause r _ _ hcause hchild ih =>
    intro e he
    rw [List.length_append, List.length_singleton]
    rcases List.mem_append.mp he with hold | hnew
    · have := ih e hold
      omega
    · have := ih cause hcause
      have := hchild.depth
      rw [List.mem_singleton.mp hnew]
      omega

section Chain

variable {records : List Record} {s : RecordStore}

private theorem causes_of_mem_chain (hgrown : Grown records)
    (hread : ∀ r ∈ records, s.read r.seq = some r) {fuel : Nat} {r a : Record} (hr : r ∈ records)
    (ha : a ∈ s.chain fuel r.parent) : Causes records a r := by
  induction fuel generalizing r with
  | zero => cases ha
  | succ fuel ih =>
    cases hparent : r.parent with
    | none =>
      rw [hparent] at ha
      cases ha
    | some seq =>
      obtain ⟨cause, hcause, rfl, _, _⟩ := hgrown.cause_of_parent hr hparent
      have hstep : Causes records cause r := .single ⟨hcause, hr, hparent⟩
      rw [hparent, RecordStore.chain, Option.bind_some, hread cause hcause] at ha
      rcases List.mem_cons.mp ha with rfl | hlater
      · exact hstep
      · exact (ih hcause hlater).trans hstep

private theorem mem_chain_of_causes (hgrown : Grown records)
    (hread : ∀ r ∈ records, s.read r.seq = some r) {fuel : Nat} {r a : Record}
    (hfuel : r.depth ≤ fuel) (h : Causes records a r) : a ∈ s.chain fuel r.parent := by
  induction fuel generalizing r with
  | zero =>
    have hroot := hgrown.isRoot_of_depth h.right_mem (by omega)
    cases h with
    | single hstep => rw [hroot.parent] at hstep; cases hstep.2.2
    | tail _ hstep => rw [hroot.parent] at hstep; cases hstep.2.2
  | succ fuel ih =>
    obtain ⟨cause, hcause, hparent, hfound⟩ : ∃ cause ∈ records, r.parent = some cause.seq ∧
        (a = cause ∨ Causes records a cause) := by
      cases h with
      | single hstep => exact ⟨a, hstep.1, hstep.2.2, .inl rfl⟩
      | @tail cause _ hbefore hstep => exact ⟨cause, hstep.1, hstep.2.2, .inr hbefore⟩
    obtain ⟨cause', hcause', hseq, _, hchild⟩ :=
      hgrown.cause_of_parent h.right_mem hparent
    obtain rfl := hgrown.eq_of_seq hcause' hcause hseq
    have hdepth := hchild.depth
    rw [hparent, RecordStore.chain, Option.bind_some, hread cause' hcause]
    rcases hfound with rfl | hbefore
    · exact List.mem_cons_self ..
    · exact List.mem_cons_of_mem _ (ih (by omega) hbefore)

end Chain

private theorem Progress.mem_ancestors_iff {p : Progress σ RecordStore}
    (hstore : p.stage.store.Reachable)
    (hgrown : Grown p.records) {a r : Record} (hr : r ∈ p.records) :
    a ∈ p.stage.store.ancestors r.seq ↔ Causes p.records a r := by
  have hread : ∀ r ∈ p.records, p.stage.store.read r.seq = some r :=
    fun r hr => hstore.read_of_mem (mem_records.mp hr).1
  have hfuel : r.depth ≤ p.stage.store.records.length :=
    Nat.le_of_lt (Nat.lt_of_lt_of_le (hgrown.depth_lt r hr) (List.length_filter_le _ _))
  rw [RecordStore.ancestors, hread r hr]
  exact ⟨causes_of_mem_chain hgrown hread hr, mem_chain_of_causes hgrown hread hfuel⟩

/-- An invocation with an input is on the chain of a trigger: the trigger or one of its causes is of
the same action with identical input. -/
def RepeatsChain (records : List Record) (action : String) (input : Payload) (trigger : Record) :
    Prop :=
  ∃ a, (a = trigger ∨ Causes records a trigger) ∧
    a.action = action ∧ a.input.identical input = true

private theorem Record.repeats_iff {r : Record} {action : String} {input : Payload} :
    r.repeats action input = true ↔ r.action = action ∧ r.input.identical input = true := by
  simp [Record.repeats]

open Classical in
theorem Progress.repeatsCause_eq {p : Progress σ RecordStore} (hstore : p.stage.store.Reachable)
    (hgrown : Grown p.records) {trigger : Record} (htrigger : trigger ∈ p.records)
    (action : String) (input : Payload) :
    repeatsCause p.stage.store action input trigger =
      .ok (decide (RepeatsChain p.records action input trigger)) := by
  have hchain : RepeatsChain p.records action input trigger ↔
      trigger.repeats action input = true ∨
        (p.stage.store.ancestors trigger.seq).any (fun r => r.repeats action input) = true := by
    simp only [RepeatsChain, List.any_eq_true, Record.repeats_iff,
      mem_ancestors_iff hstore hgrown htrigger]
    constructor
    · rintro ⟨a, rfl | hcauses, hrepeats⟩
      · exact .inl hrepeats
      · exact .inr ⟨a, hcauses, hrepeats⟩
    · rintro (hrepeats | ⟨a, hcauses, hrepeats⟩)
      · exact ⟨trigger, .inl rfl, hrepeats⟩
      · exact ⟨a, .inr hcauses, hrepeats⟩
  unfold repeatsCause
  by_cases htop : trigger.repeats action input = true
  · simp [htop, hchain]
  · rw [if_neg htop]
    refine congrArg Except.ok (Bool.eq_iff_iff.mpr ?_)
    rw [decide_eq_true_iff, hchain, or_iff_right htop]

/-- Within the depth limit the guard refuses what repeats the chain, and nothing else. -/
theorem Progress.refusal_eq {engine : Engine σ} {p : Progress σ RecordStore}
    (hguard : engine.config.cycleGuard = true) (hstore : p.stage.store.Reachable)
    (hgrown : Grown p.records) {trigger : Record} (htrigger : trigger ∈ p.records)
    (hdepth : trigger.depth + 1 ≤ engine.config.maxDepth) (action : String) (input : Payload) :
    (RepeatsChain p.records action input trigger →
      refusal engine action input trigger p.stage.store = .ok (some (.cycleDetected action))) ∧
    (¬ RepeatsChain p.records action input trigger →
      refusal engine action input trigger p.stage.store = .ok none) := by
  have hlimit : ¬ engine.config.maxDepth < trigger.depth + 1 := by omega
  unfold refusal
  simp only [if_neg hlimit, hguard, if_true, repeatsCause_eq hstore hgrown htrigger]
  constructor
  · intro hrepeats
    simp [hrepeats]
  · intro hnew
    simp [hnew]

namespace Run.Course

variable {engine : Engine σ} {redelivers : Prop} {ms : List (Matching σ)} {l : Loop σ RecordStore}

private theorem no_repetition (h : Course engine redelivers ms l)
    (hguard : engine.config.cycleGuard = true) :
    ∀ a r, Causes l.progress.records a r →
      ¬ (a.action = r.action ∧ a.input.identical r.input = true) := by
  induction h with
  | start _ hfresh =>
    intro a r hcauses
    have := hcauses.left_mem
    rw [records_start hfresh] at this
    cases this
  | elsewhere _ _ _ helsewhere ih =>
    rw [Progress.records, RecordStore.readRun_after helsewhere]
    exact ih
  | invoke _ _ before hopening ih =>
    obtain ⟨_, hopened⟩ := opened before.reachable hopening
    intro a r hcauses
    rw [hopened.records, before.grown.causes_snoc_root hopened.latest hopened.isRoot] at hcauses
    exact ih a r hcauses
  | deliver _ _ _ hdelivery ih =>
    obtain ⟨_, rfl⟩ := redelivery_cases hdelivery
    exact ih
  | @turn ms l l' before hturn ih =>
    obtain ⟨_, _, _, htrigger, ⟨hrecords, _⟩ | ⟨_, action, input, trigger, child, rfl, _, hkept⟩⟩ :=
      before.records_turn hturn
    · rw [hrecords]
      exact ih
    · intro a r hcauses
      rw [hkept.records,
        before.grown.causes_snoc_child hkept.latest htrigger hkept.childOf] at hcauses
      rcases hcauses with hold | ⟨rfl, hchain⟩
      · exact ih a r hold
      · -- the guard let the new completion pass, so it repeats nothing on its chain
        rintro ⟨haction, hinput⟩
        have hrepeats : RepeatsChain l.progress.records (engine.registry.nameOf action) input
            trigger := ⟨a, hchain, haction.trans hkept.action, hkept.input ▸ hinput⟩
        have hallowed := hkept.allowed
        have hlimit := depth_le_of_refusal hallowed
        have htrigger : trigger ∈ l.progress.records := htrigger
        rw [(Progress.refusal_eq hguard before.reachable before.grown htrigger hlimit _ _).1
          hrepeats] at hallowed
        cases hallowed
  | ended before hturn ih => exact before.records_ended hturn ▸ ih

/-- The cycle guard, at every moment of a run. No completion of the run repeats the action of one of
its causes with identical input. An invocation within the depth limit is refused as a cycle exactly
if its trigger or one of the trigger's causes is of its action with identical input. Then nothing is
performed or recorded, the branch is given up and the rest of the stack goes on; otherwise the
invocation is not refused. -/
theorem guards_cycles (h : Course engine redelivers ms l)
    (hguard : engine.config.cycleGuard = true) :
    (∀ a r, Causes l.progress.records a r →
      ¬ (a.action = r.action ∧ a.input.identical r.input = true)) ∧
    ∀ rule action input trigger rest, l.stack = .invoke rule action input trigger :: rest →
      trigger.depth + 1 ≤ engine.config.maxDepth →
      (refusal engine (engine.registry.nameOf action) input trigger l.progress.stage.store =
          .ok (some (.cycleDetected (engine.registry.nameOf action))) ↔
        RepeatsChain l.progress.records (engine.registry.nameOf action) input trigger) ∧
      (RepeatsChain l.progress.records (engine.registry.nameOf action) input trigger →
        (Work.invoke rule action input trigger).activities engine l.progress = [] ∧
        (l.progress.isCancelled = false →
          l.turn engine = .inl ⟨rest, l.progress.withRun (l.progress.run.abort rule trigger
            (.cycleDetected (engine.registry.nameOf action)))⟩)) ∧
      (¬ RepeatsChain l.progress.records (engine.registry.nameOf action) input trigger →
        refusal engine (engine.registry.nameOf action) input trigger l.progress.stage.store =
          .ok none) := by
  refine ⟨h.no_repetition hguard, fun rule action input trigger rest hstack hdepth => ?_⟩
  have htrigger : trigger ∈ l.progress.records :=
    h.queued (.invoke rule action input trigger) (by simp [hstack])
  obtain ⟨hrefused, hallowed⟩ := Progress.refusal_eq hguard h.reachable h.grown htrigger hdepth
    (engine.registry.nameOf action) input
  refine ⟨⟨fun hcycle => ?_, hrefused⟩, fun hrepeats => ⟨?_, fun hcancel => ?_⟩, hallowed⟩
  · by_contra hnew
    rw [hallowed hnew] at hcycle
    cases hcycle
  · simp only [Work.activities, hrefused hrepeats]
  · simp only [Loop.turn, hstack, hcancel, step, dispatch, hrefused hrepeats, Bool.false_eq_true,
      if_false, List.nil_append]

end Run.Course

/-- The rule that says something whenever something was said is stopped at once: what it would say
was just said. -/
theorem again_guards_cycles :
    let engine := Engine.echo [.again] {}
    ∃ ms l rule action input trigger, Run.Course engine True ms l ∧
      engine.config.cycleGuard = true ∧ l.stack = [.invoke rule action input trigger] ∧
      trigger.depth + 1 ≤ engine.config.maxDepth ∧
      RepeatsChain l.progress.records (engine.registry.nameOf action) input trigger ∧
      l.turn engine = .inl ⟨[], l.progress.withRun (l.progress.run.abort rule trigger
        (.cycleDetected (engine.registry.nameOf action)))⟩ := by
  intro engine
  have hopened : Run.Course engine True [] ⟨[], Run.start ⟨(), .empty, 0⟩ none⟩ :=
    .start ⟨[], rfl⟩ (by simp [RecordStore.empty])
  have course := ((hopened.invoke ⟨0⟩ [] (l := _) rfl).turn rfl).turn rfl
  obtain ⟨_, hinvocation⟩ := course.guards_cycles rfl
  obtain ⟨_, hrefused, _⟩ := hinvocation _ _ _ _ _ rfl (by decide)
  have hrepeats := hrefused ⟨_, .inl rfl, rfl, rfl⟩
  exact ⟨_, _, _, _, _, _, course, rfl, rfl, by decide, ⟨_, .inl rfl, rfl, rfl⟩, hrepeats.2 rfl⟩

end ConceptSync
