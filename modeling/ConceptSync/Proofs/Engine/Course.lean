import ConceptSync.Proofs.Engine.Outside
import ConceptSync.Proofs.Store.Sequence

set_option autoImplicit false
set_option relaxedAutoImplicit false

/-!
The course of a run, turn by turn. Between any two turns other runs may change the world and the
store; what they do while a turn waits for its action comes to the same, because a turn reads and
extends the records of its own run alone. What the turns do to these records is told once, for all
that is proved of the causal order.
-/

namespace ConceptSync

variable {σ : Type}

/-- The matching that the next turn does, if it is one. -/
def Loop.matching? {π : Type} (l : Loop σ π) : Option (Matching σ) :=
  l.next?.bind fun done => done.1.matching? done.2.run

private theorem Loop.matchings_eq_turn {π : Type} [RecordKeeper π] (engine : Engine σ)
    (l : Loop σ π) :
    l.matchings engine = l.matching?.toList ++
      match l.turn engine with
      | .inl l' => l'.matchings engine
      | .inr _ => [] := by
  unfold matchings matching?
  rw [history_eq_turn, List.filterMap_append]
  congr 1
  · rcases l.next? with _ | done
    · rfl
    · cases hmatching : done.1.matching? done.2.run <;> simp [hmatching]
  · cases l.turn engine <;> rfl

/-- A run at any moment, in the middle of an invocation or between two, with the matchings done in
it so far. Completions of the run may be delivered again if it redelivers. -/
inductive Run.Course (engine : Engine σ) (redelivers : Prop) :
    List (Matching σ) → Loop σ RecordStore → Prop
  | start {stage : Stage σ RecordStore} {cancel : Option (σ → Bool)} :
      stage.store.Reachable → (∀ r ∈ stage.store.records, r.run ≠ (start stage cancel).run.id) →
      Course engine redelivers [] ⟨[], start stage cancel⟩
  | elsewhere {ms : List (Matching σ)} {stack : List (Work σ)} {p : Progress σ RecordStore}
      {call : RecordStore.Call} (world : σ) (runs : Nat) :
      Course engine redelivers ms ⟨stack, p⟩ → call.Elsewhere p.run.id →
      Course engine redelivers ms ⟨stack, ⟨p.run, ⟨world, p.stage.store.after call, runs⟩⟩⟩
  | invoke {ms : List (Matching σ)} {p : Progress σ RecordStore} {l : Loop σ RecordStore}
      (action : ActionId) (input : Payload) : Course engine redelivers ms ⟨[], p⟩ →
      opening engine action input p = some l → Course engine redelivers ms l
  | deliver {ms : List (Matching σ)} {p : Progress σ RecordStore} {record : Record}
      {l : Loop σ RecordStore} : redelivers → Course engine redelivers ms ⟨[], p⟩ →
      record ∈ p.stage.store.readRun p.run.id → redelivery engine record p = some l →
      Course engine redelivers ms l
  | turn {ms : List (Matching σ)} {l l' : Loop σ RecordStore} :
      Course engine redelivers ms l → l.turn engine = .inl l' →
      Course engine redelivers (ms ++ l.matching?.toList) l'
  | ended {ms : List (Matching σ)} {l : Loop σ RecordStore} {result : Except Halt Unit}
      {p : Progress σ RecordStore} : Course engine redelivers ms l →
      l.turn engine = .inr (result, p) → Course engine redelivers ms ⟨[], p⟩

def Progress.records (p : Progress σ RecordStore) : List Record := p.stage.store.readRun p.run.id

theorem Progress.mem_records {p : Progress σ RecordStore} {r : Record} :
    r ∈ p.records ↔ r ∈ p.stage.store.records ∧ r.run = p.run.id :=
  RecordStore.mem_readRun

theorem Engine.invoke_of_drained {engine : Engine σ} {action : ActionId} {input : Payload}
    {stage : Stage σ RecordStore} {l : Loop σ RecordStore}
    (hopening : Run.opening engine action input (Run.start stage none) = some l)
    {ended : Progress σ RecordStore}
    (hdrain : drain engine l.stack l.progress = (.ok (), ended)) :
    engine.invoke action input stage = (.ok ⟨ended.run.id, ended.records, ended.run.aborted,
      ended.run.fired, ended.run.cancelled⟩, (Run.finish ended).2) := by
  obtain ⟨record, _, hinvoke⟩ := Run.invoke_eq_of_opening hopening
  rw [hdrain] at hinvoke
  unfold Engine.invoke
  rw [hinvoke]
  rfl

private theorem Progress.records_of_no_invocation (engine : Engine σ)
    (p : Progress σ RecordStore) {work : Work σ}
    (h : ∀ rule action input trigger, work ≠ .invoke rule action input trigger) :
    (step engine work p).2.records = p.records ∧
      ∀ next, (step engine work p).1 = .ok next → ∀ w ∈ next, w.record = work.record := by
  rcases keeper_step engine work p with ⟨hsame, hnext⟩ | ⟨_, _, _, _, _, _, _, hwork, _⟩
  · refine ⟨?_, fun next hok w hw => (hnext next hok w hw).1⟩
    rw [records, (continues_step engine work p).id, hsame]
    rfl
  · exact absurd hwork (h _ _ _ _)

/-- An invocation was performed, and its completion is now the last record of the run. -/
structure Kept (engine : Engine σ) (action : ActionId) (input : Payload) (trigger child : Record)
    (p q : Progress σ RecordStore) : Prop where
  allowed : refusal engine (engine.registry.nameOf action) input trigger p.stage.store = .ok none
  performed : engine.registry.perform action input p.stage.world =
    (.ok child.output, q.stage.world)
  records : q.records = p.records ++ [child]
  latest : ∀ e ∈ p.records, e.seq < child.seq
  childOf : child.ChildOf trigger
  action : child.action = engine.registry.nameOf action
  input : child.input = input
  run : q.run = p.run

/-- How making an invocation ends. -/
inductive Dispatched (engine : Engine σ) (rule : Rule σ) (action : ActionId) (input : Payload)
    (trigger : Record) (p : Progress σ RecordStore) :
    Except Halt (List (Work σ)) × Progress σ RecordStore → Prop
  | refused (error : EngineError) :
      refusal engine (engine.registry.nameOf action) input trigger p.stage.store =
        .ok (some error) →
      Dispatched engine rule action input trigger p
        (.ok [], p.withRun (p.run.abort rule trigger error))
  | failed (failure : Failure) (world : σ) (error : EngineError) :
      engine.registry.perform action input p.stage.world = (.failed failure, world) →
      Dispatched engine rule action input trigger p
        (.ok [], (p.withWorld world).withRun (p.run.abort rule trigger error))
  | broken (b : Break) (world : σ) :
      engine.registry.perform action input p.stage.world = (.broken b, world) →
      Dispatched engine rule action input trigger p (.error (.broken b), p.withWorld world)
  | kept {child : Record} {q : Progress σ RecordStore} :
      Kept engine action input trigger child p q →
      Dispatched engine rule action input trigger p (.ok [.complete action child], q)

private theorem refusal_ok (engine : Engine σ) (action : String) (input : Payload)
    (trigger : Record) (store : RecordStore) :
    ∃ error, refusal engine action input trigger store = .ok error := by
  have hcauses : ∃ repeated, repeatsCause store action input trigger = .ok repeated := by
    unfold repeatsCause
    split
    · exact ⟨_, rfl⟩
    · exact ⟨_, rfl⟩
  obtain ⟨repeated, hcauses⟩ := hcauses
  unfold refusal
  simp only [hcauses]
  split
  · exact ⟨_, rfl⟩
  · split
    · cases repeated <;> exact ⟨_, rfl⟩
    · exact ⟨_, rfl⟩

/-- The store never refuses what an invocation of one of the run's completions asks of it. -/
theorem Progress.dispatched (engine : Engine σ) {p : Progress σ RecordStore} (rule : Rule σ)
    (action : ActionId) (input : Payload) {trigger : Record} (hstore : p.stage.store.Reachable)
    (htrigger : trigger ∈ p.records) :
    Dispatched engine rule action input trigger p
      (step engine (.invoke rule action input trigger) p) := by
  obtain ⟨refused, hrefusal⟩ :=
    refusal_ok engine (engine.registry.nameOf action) input trigger p.stage.store
  simp only [step, dispatch, hrefusal]
  cases refused with
  | some error => exact .refused error hrefusal
  | none =>
    simp only [performInvocation]
    rcases hperform : engine.registry.perform action input p.stage.world with ⟨outcome, world⟩
    cases outcome with
    | broken b => exact .broken b world hperform
    | failed failure => exact .failed failure world _ hperform
    | ok output =>
      obtain ⟨child, hok, hrecords, hlatest, hchild, hkeeps⟩ := hstore.appendChild_own
        (d := ⟨engine.registry.nameOf action, input, output, some p.run.id, trigger.depth + 1⟩)
        (mem_records.mp htrigger).1 rfl rfl
      have hkept : RecordKeeper.persistChild p.stage.store trigger.seq
          ⟨engine.registry.nameOf action, input, output, some p.run.id, trigger.depth + 1⟩ =
            (.ok child, (p.stage.store.appendChild trigger.seq
              ⟨engine.registry.nameOf action, input, output, some p.run.id,
                trigger.depth + 1⟩).2) :=
        Prod.ext (RecordStore.lift_eq_ok.mpr hok) rfl
      simp only [hkept]
      refine .kept ⟨hrefusal, ?_, hrecords, fun e he => hlatest e (mem_records.mp he).1, hchild,
        hkeeps.action, hkeeps.input, rfl⟩
      rw [hperform, hkeeps.output]
      rfl

theorem Progress.records_step (engine : Engine σ) {p : Progress σ RecordStore} {work : Work σ}
    (hstore : p.stage.store.Reachable) (hwork : work.record ∈ p.records) :
    ((step engine work p).2.records = p.records ∧
      ∀ next, (step engine work p).1 = .ok next → ∀ w ∈ next, w.record = work.record) ∨
    ∃ rule action input trigger child, work = .invoke rule action input trigger ∧
      (step engine work p).1 = .ok [.complete action child] ∧
      Kept engine action input trigger child p (step engine work p).2 := by
  cases work with
  | invoke rule action input trigger =>
    have htrigger : trigger ∈ p.records := hwork
    have hdispatched := dispatched engine rule action input hstore htrigger
    generalize step engine (.invoke rule action input trigger) p = stepped at hdispatched
    cases hdispatched with
    | refused _ _ => exact .inl ⟨rfl, fun _ h => by cases h; simp⟩
    | failed _ _ _ _ => exact .inl ⟨rfl, fun _ h => by cases h; simp⟩
    | broken _ _ _ => exact .inl ⟨rfl, nofun⟩
    | @kept child _ hkept => exact .inr ⟨rule, action, input, trigger, child, rfl, rfl, hkept⟩
  | complete action record => exact .inl (records_of_no_invocation engine p nofun)
  | evaluate rule frames trigger => exact .inl (records_of_no_invocation engine p nofun)

/-- An action was performed from outside, and its completion is now the last record of the run. -/
structure Run.Opened (engine : Engine σ) (action : ActionId) (input : Payload) (root : Record)
    (p : Progress σ RecordStore) (l : Loop σ RecordStore) : Prop where
  stack : l.stack = [.complete action root]
  run : l.progress.run = p.run
  performed : engine.registry.perform action input p.stage.world =
    (.ok root.output, l.progress.stage.world)
  store : l.progress.stage.store.Reachable
  records : l.progress.records = p.records ++ [root]
  latest : ∀ e ∈ p.records, e.seq < root.seq
  isRoot : root.IsRoot
  action : root.action = engine.registry.nameOf action
  input : root.input = input

theorem Run.opened {engine : Engine σ} {action : ActionId} {input : Payload}
    {p : Progress σ RecordStore} {l : Loop σ RecordStore} (hstore : p.stage.store.Reachable)
    (h : opening engine action input p = some l) :
    ∃ root, Opened engine action input root p l := by
  obtain ⟨root, output, hstack, hrun, hkeep, _, hperform⟩ := opening_cases h
  have happend := RecordStore.append_of_persist hkeep
  obtain ⟨hrecords, hseq, hroot, hkeeps⟩ := hstore.append_own rfl rfl happend
  refine ⟨root, hstack, hrun, ?_, ?_, ?_, fun e he => hseq e (Progress.mem_records.mp he).1, hroot,
    hkeeps.action, hkeeps.input⟩
  · rw [hperform, hkeeps.output]
  · have hkept : _ = l.progress.stage.store := congrArg Prod.snd happend
    rw [← hkept]
    exact hstore.after (.append _)
  · rw [Progress.records, hrun]
    exact hrecords

theorem Run.records_start {stage : Stage σ RecordStore} {cancel : Option (σ → Bool)}
    (hfresh : ∀ r ∈ stage.store.records, r.run ≠ (start stage cancel).run.id) :
    (start stage cancel).records = [] := by
  refine List.eq_nil_iff_forall_not_mem.mpr fun r hr => ?_
  obtain ⟨hmem, hrun⟩ := Progress.mem_records.mp hr
  exact hfresh r hmem hrun

namespace Run.Course

variable {engine : Engine σ} {redelivers : Prop} {ms : List (Matching σ)} {l : Loop σ RecordStore}

theorem matched (h : Course engine redelivers ms l) : Matched engine.rules ms l.progress.run := by
  induction h with
  | start _ _ => exact .fresh rfl rfl
  | elsewhere _ _ _ _ ih => exact ih
  | invoke action input _ hopening ih =>
    obtain ⟨_, _, _, hrun, _⟩ := opening_cases hopening
    exact hrun ▸ ih
  | deliver _ _ _ hdelivery ih =>
    obtain ⟨_, rfl⟩ := redelivery_cases hdelivery
    exact ih
  | @turn ms l l' _ hturn ih =>
    obtain ⟨work, _, _, _, hnext, hstep, _⟩ := Loop.turn_cases hturn
    have hstepped := matched_step ih work
    rw [hstep] at hstepped
    simpa [Loop.matching?, hnext] using hstepped
  | @ended ms l result p _ hturn ih =>
    rcases Loop.turn_ends hturn with ⟨_, _, heq⟩ | ⟨_, _, heq⟩ | ⟨work, _, halt, _, _, hstep, _⟩
    · cases heq
      exact ih
    · cases heq
      exact ih.congr rfl rfl
    · have hother : ∀ action record, work = .complete action record →
          record.id ∈ l.progress.run.seen := by
        rintro action record rfl
        cases hstep
      obtain ⟨hjoins, hseen⟩ := joins_step engine hother
      rw [hstep] at hjoins hseen
      exact ih.congr hjoins hseen

theorem reachable (h : Course engine redelivers ms l) : l.progress.stage.store.Reachable := by
  induction h with
  | start hstore _ => exact hstore
  | elsewhere _ _ _ _ ih => exact ih.after _
  | invoke action input _ hopening ih =>
    obtain ⟨_, hopened⟩ := opened ih hopening
    exact hopened.store
  | deliver _ _ _ hdelivery ih =>
    obtain ⟨_, rfl⟩ := redelivery_cases hdelivery
    exact ih
  | turn _ hturn ih =>
    obtain ⟨work, _, _, _, _, hstep, _⟩ := Loop.turn_cases hturn
    have hstepped := (RecordStore.KeptBy.reachable _).step engine ih work
    rwa [hstep] at hstepped
  | ended _ hturn ih =>
    rcases Loop.turn_ends hturn with ⟨_, _, heq⟩ | ⟨_, _, heq⟩ | ⟨work, _, _, _, _, hstep, _⟩
    · cases heq
      exact ih
    · cases heq
      exact ih
    · have hstepped := (RecordStore.KeptBy.reachable _).step engine ih work
      rwa [hstep] at hstepped

/-- All queued work belongs to completions of the run. -/
theorem queued (h : Course engine redelivers ms l) :
    ∀ w ∈ l.stack, w.record ∈ l.progress.records := by
  induction h with
  | start _ _ => simp
  | elsewhere _ _ _ helsewhere ih =>
    intro w hw
    rw [Progress.records, RecordStore.readRun_after helsewhere]
    exact ih w hw
  | invoke action input before hopening _ =>
    obtain ⟨root, hopened⟩ := opened before.reachable hopening
    intro w hw
    rw [hopened.stack] at hw
    obtain rfl := List.mem_singleton.mp hw
    simp [hopened.records, Work.record]
  | deliver _ _ hown hdelivery _ =>
    obtain ⟨_, rfl⟩ := redelivery_cases hdelivery
    intro w hw
    obtain rfl := List.mem_singleton.mp hw
    exact hown
  | turn before hturn ih =>
    obtain ⟨work, rest, next, hstack, _, hstep, hstack'⟩ := Loop.turn_cases hturn
    have hwork := ih work (by simp [hstack])
    have hrest : ∀ w ∈ rest, w.record ∈ _ := fun w hw => ih w (by simp [hstack, hw])
    have hstepped := Progress.records_step engine before.reachable hwork
    rw [hstep] at hstepped
    intro w hw
    rw [hstack'] at hw
    rcases hstepped with ⟨hrecords, hnext⟩ | ⟨_, _, _, _, child, _, hnext, hkept⟩
    · rw [hrecords]
      rcases List.mem_append.mp hw with hnew | hold
      · rw [hnext next rfl w hnew]
        exact hwork
      · exact hrest w hold
    · obtain rfl := Except.ok.inj hnext
      rw [hkept.records]
      rcases List.mem_cons.mp hw with rfl | hold
      · simp [Work.record]
      · exact List.mem_append_left _ (hrest w hold)
  | ended _ _ _ => simp

/-- One turn either leaves the records of the run alone and leads to further work of the same
completion, or it is an invocation whose completion is kept. -/
theorem records_turn (h : Course engine redelivers ms l) {l' : Loop σ RecordStore}
    (hturn : l.turn engine = .inl l') :
    ∃ work rest, l.stack = work :: rest ∧ work.record ∈ l.progress.records ∧
      ((l'.progress.records = l.progress.records ∧
        ∃ next, l'.stack = next ++ rest ∧ ∀ w ∈ next, w.record = work.record) ∨
      ∃ rule action input trigger child, work = .invoke rule action input trigger ∧
        l'.stack = .complete action child :: rest ∧
        Kept engine action input trigger child l.progress l'.progress) := by
  obtain ⟨work, rest, next, hstack, _, hstep, hstack'⟩ := Loop.turn_cases hturn
  have hwork := h.queued work (by simp [hstack])
  have hstepped := Progress.records_step engine h.reachable hwork
  rw [hstep] at hstepped
  refine ⟨work, rest, hstack, hwork, ?_⟩
  rcases hstepped with ⟨hrecords, hnext⟩ | ⟨rule, action, input, trigger, child, rfl, hnext, hkept⟩
  · exact .inl ⟨hrecords, next, hstack', hnext next rfl⟩
  · obtain rfl := Except.ok.inj hnext
    exact .inr ⟨rule, action, input, trigger, child, rfl, hstack', hkept⟩

theorem records_ended (h : Course engine redelivers ms l) {result : Except Halt Unit}
    {p : Progress σ RecordStore} (hturn : l.turn engine = .inr (result, p)) :
    p.records = l.progress.records := by
  rcases Loop.turn_ends hturn with ⟨_, _, heq⟩ | ⟨_, _, heq⟩ | ⟨work, _, halt, hstack, _, hstep, _⟩
  · cases heq
    rfl
  · cases heq
    rfl
  · have hstepped := Progress.records_step engine h.reachable (h.queued work (by simp [hstack]))
    rw [hstep] at hstepped
    rcases hstepped with ⟨hrecords, _⟩ | ⟨_, _, _, _, _, _, hnext, _⟩
    · exact hrecords
    · cases hnext

theorem issued (h : Course engine redelivers ms l) : ∀ m ∈ ms, m.record.Issued := by
  induction h with
  | start _ _ => simp
  | elsewhere _ _ _ _ ih => exact ih
  | invoke _ _ _ _ ih => exact ih
  | deliver _ _ _ _ ih => exact ih
  | @turn ms l l' before hturn ih =>
    intro m hm
    rcases List.mem_append.mp hm with hold | hnew
    · exact ih m hold
    · obtain ⟨⟨work, p⟩, hnext, hmatching⟩ :=
        Option.bind_eq_some_iff.mp (Option.mem_toList.mp hnew)
      have hrecord := before.queued work (Loop.mem_stack_of_next hnext).1
      rw [Work.record_of_matching hmatching] at hrecord
      exact before.reachable.issued _ (Progress.mem_records.mp hrecord).1
  | ended _ _ ih => exact ih

theorem reaches (h : Course engine redelivers ms l) {l' : Loop σ RecordStore}
    (hreach : Loop.Reaches engine l l') :
    ∃ all, Course engine redelivers all l' := by
  induction hreach with
  | refl => exact ⟨ms, h⟩
  | tail _ hturn ih =>
    obtain ⟨all, hcourse⟩ := ih
    exact ⟨_, hcourse.turn hturn⟩

private theorem drained (h : Course engine redelivers ms l) :
    Course engine redelivers (ms ++ l.matchings engine)
      ⟨[], (drain engine l.stack l.progress).2⟩ := by
  induction l using (Loop.wellFounded_turn RecordStore engine).induction generalizing ms with
  | h l ih => ?_
  rw [Loop.drain_eq_turn, Loop.matchings_eq_turn]
  rcases hturn : l.turn engine with l' | ⟨result, p⟩
  · rw [← List.append_assoc]
    exact ih l' hturn (h.turn hturn)
  · have hnone : l.matching? = none := by
      rcases Loop.turn_ends hturn with ⟨hnext, _⟩ | ⟨hnext, _⟩ | ⟨work, _, _, _, hnext, hstep, _⟩
      · simp [Loop.matching?, hnext]
      · simp [Loop.matching?, hnext]
      · cases work with
        | complete action record => cases hstep
        | evaluate rule frames trigger => simp [Loop.matching?, hnext, Work.matching?]
        | invoke rule action input trigger => simp [Loop.matching?, hnext, Work.matching?]
    rw [hnone]
    simpa using h.ended hturn

theorem invoked {p : Progress σ RecordStore} (h : Course engine redelivers ms ⟨[], p⟩)
    (action : ActionId) (input : Payload) :
    Course engine redelivers
      (ms ++ (opening engine action input p).elim [] (Loop.matchings engine))
      ⟨[], (Run.invoke engine action input p).2⟩ := by
  cases hopening : opening engine action input p with
  | none =>
    rw [invoke_of_no_opening hopening, Option.elim_none, List.append_nil]
    have hpass : RecordStore.Call.Elsewhere p.run.id (.tick p.stage.store.clock) := trivial
    exact h.elsewhere _ p.stage.runs hpass
  | some l =>
    rw [invoke_of_opening hopening]
    exact (h.invoke action input hopening).drained

private theorem delivered {p : Progress σ RecordStore} (h : Course engine redelivers ms ⟨[], p⟩)
    (hredelivers : redelivers) {record : Record}
    (hown : record ∈ p.stage.store.readRun p.run.id) :
    Course engine redelivers
      (ms ++ (redelivery engine record p).elim [] (Loop.matchings engine))
      ⟨[], (Run.deliver engine record p).2⟩ := by
  rw [deliver_eq]
  cases hdelivery : redelivery engine record p with
  | none => simpa using h
  | some l => exact (h.deliver hredelivers hown hdelivery).drained

end Run.Course

theorem Run.Life.course {engine : Engine σ} {ms : List (Matching σ)} {p : Progress σ RecordStore}
    (live : Life engine ms p) : Course engine True ms ⟨[], p⟩ := by
  induction live with
  | start hstore hfresh => exact .start hstore hfresh
  | elsewhere world runs _ helsewhere ih => exact ih.elsewhere world runs helsewhere
  | invoke action input _ ih => exact ih.invoked action input
  | deliver _ hown ih => exact ih.delivered trivial hown

theorem Run.Life.matched {engine : Engine σ} {ms : List (Matching σ)} {p : Progress σ RecordStore}
    (live : Life engine ms p) : Matched engine.rules ms p.run :=
  live.course.matched

end ConceptSync
