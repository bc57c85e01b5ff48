import ConceptSync.Proofs.Engine.Life

set_option autoImplicit false
set_option relaxedAutoImplicit false

/-!
An invocation from outside in a run of its own: the calls it makes, the store it leaves, and the
completion it starts from, which has no causes.
-/

namespace ConceptSync

variable {σ π : Type}

section Keeper

variable [RecordKeeper π]

/-- The calls that an invocation from outside makes in a run of its own: that of the action, and
those of everything it leads to. -/
def Engine.activities (engine : Engine σ) (action : ActionId) (input : Payload)
    (stage : Stage σ π) : List (Activity σ) :=
  if engine.registry.kind? action = some .action then
    .performed action input stage.world ::
      (Run.opening engine action input (Run.start stage none)).elim [] (Loop.activities engine)
  else []

private theorem Run.world_finish (p : Progress σ π) : (Run.finish p).2.world = p.stage.world := by
  unfold finish
  split
  · rfl
  · split <;> rfl

theorem Engine.world_invoke (engine : Engine σ) (action : ActionId) (input : Payload)
    (stage : Stage σ π) :
    (engine.invoke action input stage).2.world =
      (Run.invoke engine action input (Run.start stage none)).2.stage.world := by
  unfold Engine.invoke
  rcases Run.invoke engine action input (Run.start stage none) with ⟨result, p⟩
  have hworld := Run.world_finish p
  cases result with
  | ok record =>
    simp only
    rw [← hworld]
    rcases Run.finish p with ⟨settled, after⟩
    cases settled <;> rfl
  | error halt =>
    cases halt with
    | failed failure => exact hworld
    | broken b => rfl

end Keeper

namespace Engine

variable {engine : Engine σ} {action : ActionId} {input : Payload} {stage : Stage σ RecordStore}

/-- The calls of an invocation from outside are all that changes the world. -/
theorem traces_activities (engine : Engine σ) (action : ActionId) (input : Payload)
    (stage : Stage σ RecordStore) :
    Traces engine stage.world (engine.activities action input stage)
      (engine.invoke action input stage).2.world := by
  rw [world_invoke]
  unfold activities
  cases hopening : Run.opening engine action input (Run.start stage none) with
  | none =>
    rw [Run.invoke_of_no_opening hopening]
    by_cases hkind : engine.registry.kind? action = some .action
    · rw [if_pos hkind, if_pos hkind]
      exact Traces.single engine (.performed action input stage.world)
    · rw [if_neg hkind, if_neg hkind]
      exact .nil _
  | some l =>
    obtain ⟨_, output, _, _, _, hkind, hperform⟩ := Run.opening_cases hopening
    rw [if_pos hkind, Run.invoke_of_opening hopening]
    have hworld : (Activity.performed action input stage.world).after engine =
        l.progress.stage.world := congrArg Prod.snd hperform
    have hloop := l.traces_activities engine
    rw [← hworld] at hloop
    exact .cons hloop

theorem mem_activities {a : Activity σ} :
    a ∈ engine.activities action input stage ↔
      engine.registry.kind? action = some .action ∧
        (a = .performed action input stage.world ∨
          ∃ l, Run.opening engine action input (Run.start stage none) = some l ∧
            a ∈ l.activities engine) := by
  unfold activities
  split
  · next hkind =>
    cases hopening : Run.opening engine action input (Run.start stage none) <;> simp [hkind]
  · next hkind => simp [hkind]

end Engine

theorem Run.root_of_opening {engine : Engine σ} {action : ActionId} {input : Payload}
    {p : Progress σ RecordStore} {l : Loop σ RecordStore} (hstore : p.stage.store.Reachable)
    (h : opening engine action input p = some l) :
    ∃ record, l.stack = [.complete action record] ∧ l.progress.run = p.run ∧
      record.action = engine.registry.nameOf action ∧ record.input = input ∧ record.depth = 0 ∧
      l.progress.stage.store.ancestors record.seq = [] := by
  obtain ⟨record, output, hstack, hrun, hkeep, _, _⟩ := opening_cases h
  have happend := RecordStore.append_of_persist hkeep
  have hok := congrArg Prod.fst happend
  have hroot := hstore.ancestors_append hok
  rw [happend] at hroot
  obtain ⟨_, hkeeps, _⟩ := RecordStore.append_ok hok
  exact ⟨record, hstack, hrun, hkeeps.action, hkeeps.input, hkeeps.depth, hroot⟩

theorem Run.opening_of_perform {engine : Engine σ} {action : ActionId} {input output : Payload}
    {p : Progress σ RecordStore} {world : σ}
    (hkind : engine.registry.kind? action = some .action)
    (hperform : engine.registry.perform action input p.stage.world = (.ok output, world)) :
    ∃ l, opening engine action input p = some l := by
  obtain ⟨r, hkept⟩ := RecordStore.persist_of_run p.stage.store
    ⟨engine.registry.nameOf action, input, output, some p.run.id, 0⟩ rfl
  rcases hkeep : RecordKeeper.persist p.stage.store
    ⟨engine.registry.nameOf action, input, output, some p.run.id, 0⟩ with ⟨result, store⟩
  rw [hkeep] at hkept
  cases hkept
  refine ⟨⟨[.complete action r], (p.withWorld world).withStore store⟩, ?_⟩
  simp [opening, hkind, hperform, hkeep]

theorem refusal_of_root {engine : Engine σ} {action : String} {record : Record}
    {store : RecordStore} (input : Payload) (hdepth : record.depth < engine.config.maxDepth)
    (haction : record.action ≠ action) (hroot : store.ancestors record.seq = []) :
    refusal engine action input record store = .ok none := by
  have hcauses : repeatsCause store action input record = .ok false := by
    have hrepeats : record.repeats action input = false := by
      simp [Record.repeats, haction]
    have hancestors : RecordKeeper.ancestors store record.seq = .ok [] := congrArg Except.ok hroot
    simp [repeatsCause, hrepeats, hancestors]
  unfold refusal
  simp only [hcauses]
  rw [if_neg (by omega)]
  split <;> rfl

structure RecordStore.KeptBy (own : String) (P : RecordStore → Prop) : Prop where
  append : ∀ s d, d.run = some own → P s → P (s.after (.append d))
  appendChild : ∀ s parent d, d.run = some own → P s → P (s.after (.appendChild parent d))

namespace RecordStore.KeptBy

variable {P : RecordStore → Prop}

theorem reachable (own : String) : KeptBy own Reachable :=
  ⟨fun _ _ _ h => h.after _, fun _ _ _ _ h => h.after _⟩

private theorem ownRecords (own : String) : KeptBy own fun s => ∀ r ∈ s.records, r.run = own := by
  constructor
  · intro s d hd h r hr
    rcases mem_append.mp hr with hold | hnew
    · exact h r hold
    · obtain ⟨_, _, hrun⟩ := append_ok hnew
      exact (Option.some.inj (hd.symm.trans hrun)).symm
  · intro s parent d hd h r hr
    rcases mem_appendChild.mp hr with hold | hnew
    · exact h r hold
    · exact (appendChild_ok hnew).2.2 own hd

theorem latest (own : String) (n : Nat) : KeptBy own fun s => n ≤ s.latest := by
  constructor
  · intro s d _ h
    change n ≤ (s.append d).2.latest
    unfold RecordStore.append
    split
    · exact h
    · exact Nat.le_succ_of_le h
  · intro s parent d _ h
    change n ≤ (s.appendChild parent d).2.latest
    unfold RecordStore.appendChild
    split
    · exact h
    · exact Nat.le_succ_of_le h

theorem step (engine : Engine σ) {p : Progress σ RecordStore} (hkept : KeptBy p.run.id P)
    (h : P p.stage.store) (work : Work σ) : P (ConceptSync.step engine work p).2.stage.store := by
  rcases keeper_step engine work p with ⟨hsame, _⟩ |
    ⟨_, _, _, trigger, _, _, draft, _, _, hdraft, _, hstore, _⟩
  · rw [hsame]
    exact h
  · rw [← hstore]
    exact hkept.appendChild _ _ draft (by rw [hdraft]) h

private theorem drain {engine : Engine σ} (l : Loop σ RecordStore)
    (hkept : KeptBy l.progress.run.id P) (h : P l.progress.stage.store) :
    P (ConceptSync.drain engine l.stack l.progress).2.stage.store := by
  refine Loop.drain_of_kept engine
    (I := fun l => KeptBy l.progress.run.id P ∧ P l.progress.stage.store)
    (P := fun p => P p.stage.store) (fun l l' hl hturn => ?_) (fun l result hl hturn => ?_)
    ⟨hkept, h⟩
  · obtain ⟨work, _, _, _, _, hstep, _⟩ := Loop.turn_cases hturn
    have hstepped := hl.1.step engine hl.2 work
    rw [hstep] at hstepped
    exact ⟨(Loop.continues_of_reaches (.single hturn)).id ▸ hl.1, hstepped⟩
  · rcases Loop.turn_ends hturn with ⟨_, _, rfl⟩ | ⟨_, _, rfl⟩ | ⟨work, _, _, _, _, hstep, _⟩
    · exact hl.2
    · exact hl.2
    · have hstepped := hl.1.step engine hl.2 work
      rwa [hstep] at hstepped

private theorem invoke (engine : Engine σ) (action : ActionId) (input : Payload)
    {p : Progress σ RecordStore} (hkept : KeptBy p.run.id P) (h : P p.stage.store) :
    (Run.invoke engine action input p).2.run.id = p.run.id ∧
      P (Run.invoke engine action input p).2.stage.store := by
  cases hopening : Run.opening engine action input p with
  | none =>
    rw [Run.invoke_of_no_opening hopening]
    exact ⟨rfl, h⟩
  | some l =>
    rw [Run.invoke_of_opening hopening]
    obtain ⟨_, _, _, hrun, hkeep, _⟩ := Run.opening_cases hopening
    have hstore := congrArg Prod.snd (append_of_persist hkeep)
    constructor
    · rw [(Loop.continues_drain engine l).id, hrun]
    · refine drain l (hrun ▸ hkept) ?_
      rw [← show _ = l.progress.stage.store from hstore]
      exact hkept.append _ _ rfl h

end RecordStore.KeptBy

namespace Engine

theorem store_invoke (engine : Engine σ) (action : ActionId) (input : Payload)
    (stage : Stage σ RecordStore) :
    (engine.invoke action input stage).2.store =
      (Run.invoke engine action input (Run.start stage none)).2.stage.store.after
        (.forgetRun (Run.invoke engine action input (Run.start stage none)).2.run.id) := by
  unfold Engine.invoke
  rcases Run.invoke engine action input (Run.start stage none) with ⟨result, p⟩
  cases result with
  | ok record => rfl
  | error halt =>
    cases halt with
    | failed failure => rfl
    | broken b => rfl

theorem reachable_invoke (engine : Engine σ) (action : ActionId) (input : Payload)
    {stage : Stage σ RecordStore} (h : stage.store.Reachable) :
    (engine.invoke action input stage).2.store.Reachable := by
  rw [store_invoke]
  exact ((RecordStore.KeptBy.reachable _).invoke engine action input
    (p := Run.start stage none) h).2.after _

theorem records_invoke (engine : Engine σ) (action : ActionId) (input : Payload)
    {stage : Stage σ RecordStore} (h : stage.store.records = []) :
    (engine.invoke action input stage).2.store.records = [] := by
  obtain ⟨hrun, hown⟩ := (RecordStore.KeptBy.ownRecords _).invoke engine action input
    (p := Run.start stage none) (by simp [Run.start, h])
  rw [store_invoke, hrun]
  exact List.filter_eq_nil_iff.mpr fun r hr => by simp [hown r hr]

end Engine

end ConceptSync
