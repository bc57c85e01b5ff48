import ConceptSync.Engine.Invoke
import ConceptSync.Proofs.Engine.Loop
import ConceptSync.Proofs.Store.Reachable

set_option autoImplicit false
set_option relaxedAutoImplicit false

/-!
The life of a run: it is opened on a store that knows nothing of it, actions are invoked in it and
its own completions delivered again, in any order, while other runs go on in between. What holds
throughout is proved once, from what a single turn of the loop preserves.
-/

namespace ConceptSync

variable {σ π : Type}

def Work.matching? (run : Run σ) : Work σ → Option (Matching σ)
  | .complete action record =>
    if record.id ∈ run.seen then none else some ⟨action, record, run⟩
  | _ => none

theorem Work.record_of_matching {run : Run σ} {work : Work σ} {m : Matching σ}
    (h : work.matching? run = some m) : work.record = m.record := by
  cases work with
  | complete action record =>
    simp only [matching?] at h
    split at h
    · cases h
    · cases h
      rfl
  | evaluate rule frames trigger => cases h
  | invoke rule action input trigger => cases h

section Keeper

variable [RecordKeeper π]

def Loop.matchings (engine : Engine σ) (l : Loop σ π) : List (Matching σ) :=
  (l.history engine).filterMap fun done => done.1.matching? done.2.run

theorem matched_step {engine : Engine σ} {ms : List (Matching σ)} {p : Progress σ π}
    (h : Matched engine.rules ms p.run) (work : Work σ) :
    Matched engine.rules (ms ++ (work.matching? p.run).toList) (step engine work p).2.run := by
  have hother : (∀ action record, work = .complete action record → record.id ∈ p.run.seen) →
      work.matching? p.run = none →
      Matched engine.rules (ms ++ (work.matching? p.run).toList) (step engine work p).2.run := by
    intro hseen hnone
    obtain ⟨hjoins, hsame⟩ := joins_step engine hseen
    rw [hnone, Option.toList_none, List.append_nil]
    exact h.congr hjoins hsame
  cases work with
  | complete action record =>
    by_cases hseen : record.id ∈ p.run.seen
    · exact hother (fun _ _ h => by cases h; exact hseen) (by simp [Work.matching?, hseen])
    · have hstep : completeRecord engine action record p.run = _ :=
        completeRecord_of_unseen action hseen
      simp only [Work.matching?, if_neg hseen, Option.toList_some, step, hstep]
      exact .matching h hseen rfl rfl
  | evaluate rule frames trigger => exact hother (fun _ _ h => by cases h) rfl
  | invoke rule action input trigger => exact hother (fun _ _ h => by cases h) rfl

namespace Run

/-- The loop that an invocation from outside opens, if its completion is kept. -/
def opening (engine : Engine σ) (action : ActionId) (input : Payload) (p : Progress σ π) :
    Option (Loop σ π) :=
  if engine.registry.kind? action ≠ some .action then none
  else
    match engine.registry.perform action input p.stage.world with
    | (.ok output, world) =>
      match RecordKeeper.persist p.stage.store
          ⟨engine.registry.nameOf action, input, output, some p.run.id, 0⟩ with
      | (.ok record, store) => some ⟨[.complete action record], (p.withWorld world).withStore store⟩
      | (.error _, _) => none
    | (.failed _, _) => none
    | (.broken _, _) => none

/-- The loop that the delivery of a completion opens, if it is one of the run. -/
def redelivery (engine : Engine σ) (record : Record) (p : Progress σ π) : Option (Loop σ π) :=
  if record.run ≠ p.run.id then none
  else (engine.registry.lookup record.action).map fun action => ⟨[.complete action record], p⟩

theorem opening_cases {engine : Engine σ} {action : ActionId} {input : Payload}
    {p : Progress σ π} {l : Loop σ π} (h : opening engine action input p = some l) :
    ∃ record output, l.stack = [.complete action record] ∧ l.progress.run = p.run ∧
      RecordKeeper.persist p.stage.store
        ⟨engine.registry.nameOf action, input, output, some p.run.id, 0⟩ =
          (.ok record, l.progress.stage.store) ∧
      engine.registry.kind? action = some .action ∧
      engine.registry.perform action input p.stage.world =
        (.ok output, l.progress.stage.world) := by
  unfold opening at h
  split at h
  · cases h
  · next hkind =>
    split at h
    · next output world hperform =>
      split at h
      · next record store hkeep =>
        cases h
        exact ⟨record, output, rfl, rfl, hkeep, not_not.mp hkind, hperform⟩
      · cases h
    · cases h
    · cases h

omit [RecordKeeper π] in
theorem redelivery_cases {engine : Engine σ} {record : Record} {p : Progress σ π} {l : Loop σ π}
    (h : redelivery engine record p = some l) :
    ∃ action, l = ⟨[.complete action record], p⟩ := by
  unfold redelivery at h
  split at h
  · cases h
  · obtain ⟨action, _, rfl⟩ := Option.map_eq_some_iff.mp h
    exact ⟨action, rfl⟩

theorem invoke_eq_of_opening {engine : Engine σ} {action : ActionId} {input : Payload}
    {p : Progress σ π} {l : Loop σ π} (h : opening engine action input p = some l) :
    ∃ record, l.stack = [.complete action record] ∧
      invoke engine action input p = ((drain engine l.stack l.progress).1.map fun _ => record,
        (drain engine l.stack l.progress).2) := by
  unfold opening at h
  unfold invoke
  split at h
  · cases h
  · next hkind =>
    simp only [if_neg hkind]
    split at h
    · next hperform =>
      simp only [hperform]
      split at h
      · next record store hkeep =>
        cases h
        refine ⟨record, rfl, ?_⟩
        simp only [hkeep]
        split <;> next hdrain => rw [hdrain]; rfl
      · cases h
    · cases h
    · cases h

/-- An invocation from outside does what the loop it opens does. -/
theorem invoke_of_opening {engine : Engine σ} {action : ActionId} {input : Payload}
    {p : Progress σ π} {l : Loop σ π} (h : opening engine action input p = some l) :
    (invoke engine action input p).2 = (drain engine l.stack l.progress).2 := by
  obtain ⟨_, _, hinvoke⟩ := invoke_eq_of_opening h
  exact congrArg Prod.snd hinvoke

theorem deliver_eq (engine : Engine σ) (record : Record) (p : Progress σ π) :
    (deliver engine record p).2 =
      match redelivery engine record p with
      | some l => (drain engine l.stack l.progress).2
      | none => p := by
  unfold deliver redelivery
  split
  · rfl
  · cases engine.registry.lookup record.action <;> rfl

end Run

end Keeper

namespace Run

theorem invoke_of_no_opening {engine : Engine σ} {action : ActionId} {input : Payload}
    {p : Progress σ RecordStore} (h : opening engine action input p = none) :
    (invoke engine action input p).2 = p.withWorld
      (if engine.registry.kind? action = some .action
        then (engine.registry.perform action input p.stage.world).2 else p.stage.world) := by
  unfold opening at h
  unfold invoke
  by_cases hkind : engine.registry.kind? action = some .action
  · simp only [hkind, ne_eq, not_true_eq_false, if_false, if_true] at h ⊢
    rcases hperform : engine.registry.perform action input p.stage.world with ⟨outcome, world⟩
    rw [hperform] at h
    cases outcome with
    | failed failure => rfl
    | broken b => rfl
    | ok output =>
      obtain ⟨r, hkept⟩ := RecordStore.persist_of_run p.stage.store
        ⟨engine.registry.nameOf action, input, output, some p.run.id, 0⟩ rfl
      rcases hkeep : RecordKeeper.persist p.stage.store
        ⟨engine.registry.nameOf action, input, output, some p.run.id, 0⟩ with ⟨result, store⟩
      rw [hkeep] at hkept
      cases hkept
      simp [hkeep] at h
  · simp only [ne_eq, hkind, not_false_eq_true, if_true, if_false]
    rfl

/-- A run and the matchings done in it so far. -/
inductive Life (engine : Engine σ) : List (Matching σ) → Progress σ RecordStore → Prop
  | start {stage : Stage σ RecordStore} {cancel : Option (σ → Bool)} :
      stage.store.Reachable → (∀ r ∈ stage.store.records, r.run ≠ (start stage cancel).run.id) →
      Life engine [] (start stage cancel)
  | elsewhere {ms : List (Matching σ)} {p : Progress σ RecordStore} {call : RecordStore.Call}
      (world : σ) (runs : Nat) : Life engine ms p → call.Elsewhere p.run.id →
      Life engine ms ⟨p.run, ⟨world, p.stage.store.after call, runs⟩⟩
  | invoke {ms : List (Matching σ)} {p : Progress σ RecordStore} (action : ActionId)
      (input : Payload) : Life engine ms p →
      Life engine (ms ++ (opening engine action input p).elim [] (Loop.matchings engine))
        (invoke engine action input p).2
  | deliver {ms : List (Matching σ)} {p : Progress σ RecordStore} {record : Record} :
      Life engine ms p → record ∈ p.stage.store.readRun p.run.id →
      Life engine (ms ++ (redelivery engine record p).elim [] (Loop.matchings engine))
        (deliver engine record p).2

/-- Every stored record was issued by the store, and those of the run are within the limit. -/
structure Sound (engine : Engine σ) (p : Progress σ RecordStore) : Prop where
  issued : ∀ r ∈ p.stage.store.records, r.Issued
  within : ∀ r ∈ p.stage.store.readRun p.run.id, r.depth ≤ engine.config.maxDepth

private theorem Sound.of_mem {engine : Engine σ} {p : Progress σ RecordStore} (h : Sound engine p)
    {r : Record} (hr : r ∈ p.stage.store.readRun p.run.id) :
    r.Issued ∧ r.depth ≤ engine.config.maxDepth :=
  ⟨h.issued r (RecordStore.mem_readRun.mp hr).1, h.within r hr⟩

private theorem Sound.extend {engine : Engine σ} {p q : Progress σ RecordStore} (h : Sound engine p)
    (hid : q.run.id = p.run.id)
    (hstore : ∀ r ∈ q.stage.store.records, r ∈ p.stage.store.records ∨
      r.Issued ∧ (r.run = p.run.id → r.depth ≤ engine.config.maxDepth)) :
    Sound engine q := by
  constructor
  · intro r hr
    rcases hstore r hr with hold | ⟨hissued, _⟩
    · exact h.issued r hold
    · exact hissued
  · intro r hr
    rw [hid] at hr
    obtain ⟨hr, hrun⟩ := RecordStore.mem_readRun.mp hr
    rcases hstore r hr with hold | ⟨_, hdepth⟩
    · exact h.within r (RecordStore.mem_readRun.mpr ⟨hold, hrun⟩)
    · exact hdepth hrun

private theorem sound_step {engine : Engine σ} {p : Progress σ RecordStore} (h : Sound engine p)
    {work : Work σ} (hwork : work.record.Issued ∧ work.record.depth ≤ engine.config.maxDepth) :
    Sound engine (step engine work p).2 ∧
      ∀ next, (step engine work p).1 = .ok next → ∀ w ∈ next,
        w.record.Issued ∧ w.record.depth ≤ engine.config.maxDepth := by
  have hid := (continues_step engine work p).id
  rcases keeper_step engine work p with ⟨hstore, hnext⟩ |
    ⟨rule, action, input, trigger, output, world, draft, rfl, _, _, hlimit, hstore, hnext⟩
  · refine ⟨h.extend hid fun r hr => .inl (hstore ▸ hr), fun next hok w hw => ?_⟩
    rw [(hnext next hok w hw).1]
    exact hwork
  · constructor
    · apply h.extend hid
      intro r hr
      rw [← hstore] at hr
      rcases RecordStore.mem_appendChild.mp hr with hold | hnew
      · exact .inl hold
      · obtain ⟨hissued, hkeeps, _⟩ := RecordStore.appendChild_ok hnew
        exact .inr ⟨hissued, fun _ => hkeeps.depth ▸ hlimit⟩
    · intro next hok w hw
      obtain ⟨record, hkeep, rfl⟩ := hnext next hok
      obtain rfl := List.mem_singleton.mp hw
      obtain ⟨hissued, hkeeps, _⟩ :=
        RecordStore.appendChild_ok (RecordStore.appendChild_of_persistChild hkeep)
      exact ⟨hissued, hkeeps.depth ▸ hlimit⟩

end Run

structure Loop.Sound (engine : Engine σ) (l : Loop σ RecordStore) : Prop where
  run : Run.Sound engine l.progress
  queued : ∀ w ∈ l.stack, w.record.Issued ∧ w.record.depth ≤ engine.config.maxDepth

namespace Loop.Sound

private theorem turn {engine : Engine σ} {l l' : Loop σ RecordStore} (h : l.Sound engine)
    (hturn : l.turn engine = .inl l') : l'.Sound engine := by
  obtain ⟨work, rest, next, hstack, _, hstep, hstack'⟩ := Loop.turn_cases hturn
  have hstepped := Run.sound_step h.run (h.queued work (by simp [hstack]))
  rw [hstep] at hstepped
  refine ⟨hstepped.1, fun w hw => ?_⟩
  rw [hstack'] at hw
  rcases List.mem_append.mp hw with hnew | hold
  · exact hstepped.2 next rfl w hnew
  · exact h.queued w (by simp [hstack, hold])

theorem reaches {engine : Engine σ} {l l' : Loop σ RecordStore} (h : l.Sound engine)
    (hreach : Loop.Reaches engine l l') : l'.Sound engine := by
  induction hreach with
  | refl => exact h
  | tail _ hturn ih => exact ih.turn hturn

theorem drain {engine : Engine σ} {l : Loop σ RecordStore} (h : l.Sound engine) :
    Run.Sound engine (drain engine l.stack l.progress).2 := by
  refine Loop.drain_of_kept engine (fun _ _ hl hturn => hl.turn hturn)
    (fun l result hl hturn => ?_) h
  rcases Loop.turn_ends hturn with ⟨_, _, rfl⟩ | ⟨_, _, rfl⟩ | ⟨work, _, _, hstack, _, hstep, _⟩
  · exact hl.run
  · exact ⟨hl.run.issued, hl.run.within⟩
  · have hstepped := Run.sound_step hl.run (hl.queued work (by simp [hstack]))
    rw [hstep] at hstepped
    exact hstepped.1

private theorem matchings {engine : Engine σ} {l : Loop σ RecordStore} (h : l.Sound engine) :
    ∀ m ∈ l.matchings engine, m.record.Issued := by
  intro m hm
  obtain ⟨⟨work, p⟩, hdone, hmatching⟩ := List.mem_filterMap.mp hm
  obtain ⟨l', hreach, hnext⟩ := Loop.mem_history.mp hdone
  have hqueued := (h.reaches hreach).queued work (Loop.mem_stack_of_next hnext).1
  rw [Work.record_of_matching hmatching] at hqueued
  exact hqueued.1

end Loop.Sound

namespace Run

theorem Sound.opening {engine : Engine σ} {action : ActionId} {input : Payload}
    {p : Progress σ RecordStore} {l : Loop σ RecordStore} (h : Sound engine p)
    (hopening : opening engine action input p = some l) : l.Sound engine := by
  obtain ⟨record, output, hstack, hrun, hkeep, _⟩ := opening_cases hopening
  have happend := RecordStore.append_of_persist hkeep
  have hkept := RecordStore.append_ok (congrArg Prod.fst happend)
  have hstore := congrArg Prod.snd happend
  constructor
  · apply h.extend (congrArg Run.id hrun)
    intro r hr
    rw [show l.progress.stage.store = _ from hstore.symm] at hr
    rcases RecordStore.mem_append.mp hr with hold | hnew
    · exact .inl hold
    · obtain ⟨hissued, hkeeps, _⟩ := RecordStore.append_ok hnew
      exact .inr ⟨hissued, fun _ => hkeeps.depth ▸ Nat.zero_le _⟩
  · intro w hw
    rw [hstack] at hw
    obtain rfl := List.mem_singleton.mp hw
    exact ⟨hkept.1, hkept.2.1.depth ▸ Nat.zero_le _⟩

private theorem Sound.redelivery {engine : Engine σ} {record : Record} {p : Progress σ RecordStore}
    {l : Loop σ RecordStore} (h : Sound engine p)
    (hown : record ∈ p.stage.store.readRun p.run.id)
    (hdelivery : redelivery engine record p = some l) : l.Sound engine := by
  obtain ⟨action, rfl⟩ := redelivery_cases hdelivery
  refine ⟨h, fun w hw => ?_⟩
  obtain rfl := List.mem_singleton.mp hw
  exact h.of_mem hown

/-- The records stay sound all through the life of a run, and only issued ones are matched. -/
theorem Life.sound {engine : Engine σ} {ms : List (Matching σ)} {p : Progress σ RecordStore}
    (h : Life engine ms p) : Sound engine p ∧ ∀ m ∈ ms, m.record.Issued := by
  induction h with
  | start hstore hfresh =>
    refine ⟨⟨hstore.issued, fun r hr => ?_⟩, by simp⟩
    obtain ⟨hr, hrun⟩ := RecordStore.mem_readRun.mp hr
    exact absurd hrun (hfresh r hr)
  | @elsewhere ms p call world runs _ helsewhere ih =>
    refine ⟨ih.1.extend rfl fun r hr => ?_, ih.2⟩
    rcases RecordStore.mem_after hr with hold | ⟨hissued, hrun⟩
    · exact .inl hold
    · exact .inr ⟨hissued, fun heq => absurd heq (hrun _ helsewhere)⟩
  | @invoke ms p action input _ ih =>
    cases hopening : opening engine action input p with
    | none =>
      rw [invoke_of_no_opening hopening, Option.elim_none, List.append_nil]
      exact ⟨⟨ih.1.issued, ih.1.within⟩, ih.2⟩
    | some l =>
      have hsound := ih.1.opening hopening
      rw [invoke_of_opening hopening, Option.elim_some]
      refine ⟨hsound.drain, fun m hm => ?_⟩
      rcases List.mem_append.mp hm with hold | hnew
      · exact ih.2 m hold
      · exact hsound.matchings m hnew
  | @deliver ms p record _ hown ih =>
    rw [deliver_eq]
    cases hdelivery : redelivery engine record p with
    | none => simpa using ih
    | some l =>
      have hsound := ih.1.redelivery hown hdelivery
      refine ⟨hsound.drain, fun m hm => ?_⟩
      rcases List.mem_append.mp hm with hold | hnew
      · exact ih.2 m hold
      · exact hsound.matchings m hnew

def invokesWithin (engine : Engine σ) (turns : Nat) :
    List (ActionId × Payload) → Progress σ RecordStore →
      Option (List (Matching σ) × Progress σ RecordStore)
  | [], p => some ([], p)
  | (action, input) :: rest, p => do
    let l ← opening engine action input p
    let (_, p) ← l.run engine turns
    let (later, p) ← invokesWithin engine turns rest p
    return ((l.historyWithin engine turns).filterMap (fun done => done.1.matching? done.2.run) ++
      later, p)

theorem Life.invokesWithin {engine : Engine σ} {ms new : List (Matching σ)}
    {p q : Progress σ RecordStore} (live : Life engine ms p) {turns : Nat}
    {calls : List (ActionId × Payload)} (h : invokesWithin engine turns calls p = some (new, q)) :
    Life engine (ms ++ new) q := by
  induction calls generalizing ms new p with
  | nil =>
    cases h
    rw [List.append_nil]
    exact live
  | cons call rest ih =>
    obtain ⟨l, hopening, h⟩ := Option.bind_eq_some_iff.mp h
    obtain ⟨⟨_, p'⟩, hrun, h⟩ := Option.bind_eq_some_iff.mp h
    obtain ⟨⟨later, q'⟩, hrest, h⟩ := Option.bind_eq_some_iff.mp h
    obtain ⟨rfl, rfl⟩ := Prod.mk.inj (Option.some.inj h)
    obtain ⟨hdrain, hhistory⟩ := Loop.of_run hrun
    have hinvoked := live.invoke call.1 call.2
    rw [invoke_of_opening hopening, hopening, Option.elim_some, hdrain] at hinvoked
    have hlater := ih hinvoked hrest
    rw [List.append_assoc, Loop.matchings, hhistory] at hlater
    exact hlater

end Run

end ConceptSync
