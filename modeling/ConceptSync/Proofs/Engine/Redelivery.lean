import ConceptSync.Proofs.Engine.Course
import ConceptSync.Proofs.Registry

set_option autoImplicit false
set_option relaxedAutoImplicit false

/-!
Redelivery. A completion is matched in the very turn after it was kept, so between two calls a run
has matched everything that the store holds for it, and delivering any of it again does nothing.
-/

namespace ConceptSync

variable {σ : Type}

/-- A run in use, at any moment: callers invoke actions in it and deliver whatever completions they
like to it, while other runs go on in between. -/
inductive Run.InUse (engine : Engine σ) : Loop σ RecordStore → Prop
  | start {stage : Stage σ RecordStore} {cancel : Option (σ → Bool)} :
      (∀ r ∈ stage.store.records, r.run ≠ (start stage cancel).run.id) →
      InUse engine ⟨[], start stage cancel⟩
  | elsewhere {stack : List (Work σ)} {p : Progress σ RecordStore} {call : RecordStore.Call}
      (world : σ) (runs : Nat) : InUse engine ⟨stack, p⟩ → call.Elsewhere p.run.id →
      InUse engine ⟨stack, ⟨p.run, ⟨world, p.stage.store.after call, runs⟩⟩⟩
  | invoke {p : Progress σ RecordStore} {l : Loop σ RecordStore} (action : ActionId)
      (input : Payload) : InUse engine ⟨[], p⟩ → opening engine action input p = some l →
      InUse engine l
  | deliver {p : Progress σ RecordStore} {l : Loop σ RecordStore} (record : Record) :
      InUse engine ⟨[], p⟩ → redelivery engine record p = some l → InUse engine l
  | turn {l l' : Loop σ RecordStore} : InUse engine l → l.turn engine = .inl l' → InUse engine l'
  | ended {l : Loop σ RecordStore} {result : Except Halt Unit} {p : Progress σ RecordStore} :
      InUse engine l → l.turn engine = .inr (result, p) → InUse engine ⟨[], p⟩

theorem cancelled_step {π : Type} [RecordKeeper π] (engine : Engine σ) (work : Work σ)
    (p : Progress σ π) : (step engine work p).2.run.cancelled = p.run.cancelled := by
  cases work with
  | complete action record =>
    simp only [step, completeRecord]
    split <;> rfl
  | evaluate rule frames trigger =>
    simp only [step, evaluateFiring]
    split
    · rfl
    · rfl
    · rfl
    · rw [resolveFrames_eq_flatMap]
      rfl
  | invoke rule action input trigger =>
    simp only [step, dispatch]
    split
    · rfl
    · rfl
    · simp only [performInvocation]
      split
      · rfl
      · rfl
      · split <;> rfl

private theorem mem_seen_step {π : Type} [RecordKeeper π] (engine : Engine σ) (work : Work σ)
    (p : Progress σ π) (id : Uuid) :
    id ∈ (step engine work p).2.run.seen ↔
      id ∈ p.run.seen ∨ ∃ action record, work = .complete action record ∧ record.id = id := by
  by_cases hmatching : ∃ action record, work = .complete action record ∧ record.id ∉ p.run.seen
  · obtain ⟨action, record, rfl, hunseen⟩ := hmatching
    simp only [step, completeRecord_of_unseen action hunseen, Progress.withRun, Run.matched,
      List.mem_cons, Work.complete.injEq]
    constructor
    · rintro (rfl | hold)
      · exact .inr ⟨action, record, ⟨rfl, rfl⟩, rfl⟩
      · exact .inl hold
    · rintro (hold | ⟨_, _, ⟨_, rfl⟩, rfl⟩)
      · exact .inr hold
      · exact .inl rfl
  · have hseen : ∀ action record, work = .complete action record → record.id ∈ p.run.seen := by
      intro action record hwork
      by_contra hunseen
      exact hmatching ⟨action, record, hwork, hunseen⟩
    rw [(joins_step engine hseen).2]
    refine ⟨.inl, ?_⟩
    rintro (hold | ⟨action, record, hwork, rfl⟩)
    · exact hold
    · exact hseen action record hwork

theorem mem_records_step {engine : Engine σ} {work : Work σ} {p : Progress σ RecordStore}
    {r : Record} (h : r ∈ (step engine work p).2.records) :
    r ∈ p.records ∨ ∃ rule action trigger e, work = .invoke rule action r.input trigger ∧
      (step engine work p).1 = .ok [.complete action r] ∧
      engine.registry.entry? action = some e ∧ r.action = engine.registry.nameOf action := by
  rw [Progress.mem_records, (continues_step engine work p).id] at h
  obtain ⟨hmem, hrun⟩ := h
  have hold : r ∈ p.stage.store.records → r ∈ p.records :=
    fun hr => Progress.mem_records.mpr ⟨hr, hrun⟩
  rcases keeper_step engine work p with ⟨hsame, _⟩ | ⟨rule, action, input, trigger, _, _, _, rfl, _⟩
  · exact .inl (hold (hsame ▸ hmem))
  · simp only [step, dispatch, Work.invoke.injEq] at hmem ⊢
    split at hmem
    · exact .inl (hold hmem)
    · exact .inl (hold hmem)
    · simp only [performInvocation] at hmem ⊢
      split at hmem
      · exact .inl (hold hmem)
      · exact .inl (hold hmem)
      · next output world hperform =>
        split at hmem
        · next child store hkeep =>
          have hstore : (p.stage.store.appendChild trigger.seq _).2 = store :=
            congrArg Prod.snd hkeep
          change r ∈ store.records at hmem
          rw [← hstore] at hmem
          rcases RecordStore.mem_appendChild.mp hmem with hr | hnew
          · exact .inl (hold hr)
          · right
            have hchild : RecordStore.lift (p.stage.store.appendChild trigger.seq _).1 = .ok child :=
              congrArg Prod.fst hkeep
            rw [RecordStore.lift_eq_ok.mp hchild] at hnew
            cases hnew
            obtain ⟨e, hentry⟩ := Registry.entry_of_perform hperform
            obtain ⟨_, hkeeps, _⟩ := RecordStore.appendChild_ok (RecordStore.lift_eq_ok.mp hchild)
            exact ⟨rule, action, trigger, e, ⟨rfl, rfl, hkeeps.input.symm, rfl⟩, rfl, hentry,
              hkeeps.action⟩
        · next failure store hkeep =>
          have hstore : (p.stage.store.appendChild trigger.seq _).2 = store :=
            congrArg Prod.snd hkeep
          change r ∈ store.records at hmem
          rw [← hstore] at hmem
          rcases RecordStore.mem_appendChild.mp hmem with hr | hnew
          · exact .inl (hold hr)
          · have hchild : RecordStore.lift (p.stage.store.appendChild trigger.seq _).1 =
                .error failure := congrArg Prod.fst hkeep
            rw [hnew] at hchild
            cases hchild

structure Loop.Current (engine : Engine σ) (l : Loop σ RecordStore) : Prop where
  registered : ∀ r ∈ l.progress.records, ∃ found, engine.registry.lookup r.action = some found
  matched : l.progress.run.cancelled = false → ∀ r ∈ l.progress.records,
    r.id ∈ l.progress.run.seen ∨ ∃ action, l.stack.head? = some (.complete action r)

namespace Loop.Current

variable {engine : Engine σ} {l : Loop σ RecordStore}

private theorem mem_seen {p : Progress σ RecordStore} (h : Current engine ⟨[], p⟩)
    (hlive : p.run.cancelled = false) {r : Record} (hr : r ∈ p.records) : r.id ∈ p.run.seen := by
  rcases h.matched hlive r hr with hseen | ⟨_, hhead⟩
  · exact hseen
  · cases hhead

private theorem opening {p : Progress σ RecordStore} (h : Current engine ⟨[], p⟩)
    {action : ActionId} {input : Payload} (hopening : Run.opening engine action input p = some l) :
    Current engine l := by
  obtain ⟨root, _, hstack, hrun, hkeep, hkind, _⟩ := Run.opening_cases hopening
  have happend := RecordStore.append_of_persist hkeep
  have hkeeps := (RecordStore.append_ok (congrArg Prod.fst happend)).2.1
  have hrecords : ∀ r ∈ l.progress.records, r ∈ p.records ∨ r = root := by
    intro r hr
    obtain ⟨hmem, hid⟩ := Progress.mem_records.mp hr
    rw [← show _ = l.progress.stage.store from congrArg Prod.snd happend] at hmem
    rw [hrun] at hid
    rcases RecordStore.mem_append.mp hmem with hold | hnew
    · exact .inl (Progress.mem_records.mpr ⟨hold, hid⟩)
    · rw [happend] at hnew
      exact .inr (Except.ok.inj hnew).symm
  constructor
  · intro r hr
    rcases hrecords r hr with hold | rfl
    · exact h.registered r hold
    · obtain ⟨e, hentry, _⟩ := Option.map_eq_some_iff.mp hkind
      exact hkeeps.action ▸ Registry.exists_lookup_of_entry hentry
  · intro hlive r hr
    rw [hrun] at hlive ⊢
    rcases hrecords r hr with hold | rfl
    · exact .inl (h.mem_seen hlive hold)
    · exact .inr ⟨action, by rw [hstack]; rfl⟩

private theorem redelivery {p : Progress σ RecordStore} (h : Current engine ⟨[], p⟩)
    {record : Record} (hdelivery : Run.redelivery engine record p = some l) : Current engine l := by
  obtain ⟨_, rfl⟩ := Run.redelivery_cases hdelivery
  exact ⟨h.registered, fun hlive r hr => .inl (h.mem_seen hlive hr)⟩

private theorem turn (h : l.Current engine) {l' : Loop σ RecordStore}
    (hturn : l.turn engine = .inl l') :
    l'.Current engine := by
  obtain ⟨work, rest, next, hstack, _, hstep, hstack'⟩ := Loop.turn_cases hturn
  have hprogress : (step engine work l.progress).2 = l'.progress := congrArg Prod.snd hstep
  have hnext : (step engine work l.progress).1 = .ok next := congrArg Prod.fst hstep
  have hrecords : ∀ r ∈ l'.progress.records, r ∈ l.progress.records ∨
      (∃ action, l'.stack.head? = some (.complete action r)) ∧
        ∃ found, engine.registry.lookup r.action = some found := by
    intro r hr
    rcases mem_records_step (hprogress ▸ hr) with
      hold | ⟨_, action, _, _, _, hcomplete, hentry, haction⟩
    · exact .inl hold
    · obtain rfl := Except.ok.inj (hnext.symm.trans hcomplete)
      exact .inr ⟨⟨action, by rw [hstack']; rfl⟩,
        haction ▸ Registry.exists_lookup_of_entry hentry⟩
  constructor
  · intro r hr
    rcases hrecords r hr with hold | ⟨_, hfound⟩
    · exact h.registered r hold
    · exact hfound
  · intro hlive r hr
    rw [← hprogress, cancelled_step] at hlive
    rw [← hprogress, mem_seen_step]
    rcases hrecords r hr with hold | ⟨hhead, _⟩
    · rcases h.matched hlive r hold with hseen | ⟨action, hhead⟩
      · exact .inl (.inl hseen)
      · rw [hstack] at hhead
        exact .inl (.inr ⟨action, r, Option.some.inj hhead, rfl⟩)
    · exact .inr hhead

private theorem ended (h : l.Current engine) {result : Except Halt Unit}
    {p : Progress σ RecordStore}
    (hturn : l.turn engine = .inr (result, p)) : Current engine ⟨[], p⟩ := by
  rcases Loop.turn_ends hturn with
    ⟨_, hstack, heq⟩ | ⟨_, _, heq⟩ | ⟨work, rest, halt, hstack, _, hstep, _⟩
  · cases heq
    refine ⟨h.registered, fun hlive r hr => ?_⟩
    have hmatched := h.matched hlive r hr
    rwa [hstack] at hmatched
  · cases heq
    exact ⟨h.registered, nofun⟩
  · have hprogress : (step engine work l.progress).2 = p := congrArg Prod.snd hstep
    have hhalt : (step engine work l.progress).1 = .error halt := congrArg Prod.fst hstep
    have hrecords : ∀ r ∈ p.records, r ∈ l.progress.records := by
      intro r hr
      rcases mem_records_step (hprogress ▸ hr) with hold | ⟨_, _, _, _, _, hok, _⟩
      · exact hold
      · cases hhalt.symm.trans hok
    refine ⟨fun r hr => h.registered r (hrecords r hr), fun hlive r hr => ?_⟩
    rw [← hprogress, cancelled_step] at hlive
    rw [← hprogress, mem_seen_step]
    rcases h.matched hlive r (hrecords r hr) with hseen | ⟨action, hhead⟩
    · exact .inl (.inl hseen)
    · rw [hstack] at hhead
      obtain rfl := Option.some.inj hhead
      cases hhalt

end Loop.Current

namespace Run

variable {engine : Engine σ}

private theorem InUse.current {l : Loop σ RecordStore} (h : InUse engine l) : l.Current engine := by
  induction h with
  | start hfresh => exact ⟨by simp [records_start hfresh], by simp [records_start hfresh]⟩
  | elsewhere _ _ _ helsewhere ih =>
    obtain ⟨hregistered, hmatched⟩ := ih
    rw [Progress.records, ← RecordStore.readRun_after helsewhere] at hregistered hmatched
    exact ⟨hregistered, hmatched⟩
  | invoke _ _ _ hopening ih => exact ih.opening hopening
  | deliver _ _ hdelivery ih => exact ih.redelivery hdelivery
  | turn _ hturn ih => exact ih.turn hturn
  | ended _ hturn ih => exact ih.ended hturn

private theorem InUse.drained {l : Loop σ RecordStore} (h : InUse engine l) :
    InUse engine ⟨[], (drain engine l.stack l.progress).2⟩ :=
  Loop.drain_of_kept engine (I := InUse engine) (P := fun p => InUse engine ⟨[], p⟩)
    (fun _ _ => .turn) (fun _ _ => .ended) h

theorem InUse.invoked {p : Progress σ RecordStore} (h : InUse engine ⟨[], p⟩) (action : ActionId)
    (input : Payload) : InUse engine ⟨[], (Run.invoke engine action input p).2⟩ := by
  cases hopening : opening engine action input p with
  | none =>
    rw [invoke_of_no_opening hopening]
    have hpass : RecordStore.Call.Elsewhere p.run.id (.tick p.stage.store.clock) := trivial
    exact h.elsewhere _ p.stage.runs hpass
  | some l =>
    rw [invoke_of_opening hopening]
    exact (h.invoke action input hopening).drained

theorem InUse.delivered {p : Progress σ RecordStore} (h : InUse engine ⟨[], p⟩)
    (record : Record) : InUse engine ⟨[], (Run.deliver engine record p).2⟩ := by
  rw [deliver_eq]
  cases hdelivery : redelivery engine record p with
  | none => exact h
  | some l => exact (h.deliver record hdelivery).drained

def deliverAll (engine : Engine σ) :
    List Record → Progress σ RecordStore → Except Halt Unit × Progress σ RecordStore
  | [], p => (.ok (), p)
  | record :: rest, p =>
    match deliver engine record p with
    | (.ok (), p) => deliverAll engine rest p
    | (.error halt, p) => (.error halt, p)

private theorem turn_of_seen {p : Progress σ RecordStore} {record : Record} (action : ActionId)
    (hseen : record.id ∈ p.run.seen) (hgoing : p.isCancelled = false) :
    Loop.turn engine ⟨[.complete action record], p⟩ = .inl ⟨[], p⟩ := by
  simp only [Loop.turn, hgoing, Bool.false_eq_true, if_false, step,
    completeRecord_of_seen action hseen]
  rfl

/-- Between two calls of a run that is not cancelled, delivering any of its records in any order and
any number of times succeeds and leaves the run, the store and the world as they are, without a call
of an action or a refinement. A record of another run is refused, and changes nothing either. -/
theorem InUse.redelivers_nothing {p : Progress σ RecordStore} (h : InUse engine ⟨[], p⟩)
    (hlive : p.run.cancelled = false) (hgoing : p.isCancelled = false) :
    (∀ rs : List Record, (∀ r ∈ rs, r ∈ p.records) → deliverAll engine rs p = (.ok (), p)) ∧
    (∀ r ∈ p.records, (redelivery engine r p).elim [] (Loop.activities engine) = []) ∧
    ∀ r : Record, r.run ≠ p.run.id →
      Run.deliver engine r p =
        (.error (.failed (.engine (.foreignRecord r.seq r.run p.run.id))), p) ∧
      redelivery engine r p = none := by
  have hturn : ∀ r ∈ p.records, ∃ action, redelivery engine r p = some ⟨[.complete action r], p⟩ ∧
      Run.deliver engine r p = drain engine [.complete action r] p ∧
      Loop.turn engine ⟨[.complete action r], p⟩ = .inl ⟨[], p⟩ := by
    intro r hr
    obtain ⟨action, hfound⟩ := h.current.registered r hr
    have hown := (Progress.mem_records.mp hr).2
    refine ⟨action, ?_, ?_, turn_of_seen action (h.current.mem_seen hlive hr) hgoing⟩
    · simp [redelivery, hown, hfound]
    · simp [Run.deliver, hown, hfound]
  refine ⟨fun rs hrs => ?_, fun r hr => ?_, fun r hforeign => ?_⟩
  · induction rs with
    | nil => rfl
    | cons r rest ih =>
      obtain ⟨action, _, hdeliver, hturn⟩ := hturn r (hrs r (by simp))
      have hdrain := Loop.drain_eq_turn engine ⟨[.complete action r], p⟩
      rw [hturn] at hdrain
      have hsame : Run.deliver engine r p = (.ok (), p) := by
        rw [hdeliver, hdrain]
        simp only [drain]
      rw [deliverAll, hsame]
      exact ih fun r' hr' => hrs r' (by simp [hr'])
  · obtain ⟨action, hdelivery, _, hturn⟩ := hturn r hr
    rw [hdelivery, Option.elim_some, Loop.activities_eq_turn, hturn]
    simp [Loop.activities_eq_turn, Loop.turn, Loop.next?, hgoing, Work.activities]
  · simp [Run.deliver, redelivery, hforeign]

end Run

/-- A rule that triggers itself down to the depth limit: the three records of the run are delivered
again, the last first. -/
theorem again_redelivers_nothing :
    let engine := Engine.echo [.again] { maxDepth := 2, cycleGuard := false }
    ∃ p, Run.InUse engine ⟨[], p⟩ ∧ p.run.cancelled = false ∧ p.isCancelled = false ∧
      p.records.length = 3 ∧ Run.deliverAll engine p.records.reverse p = (.ok (), p) := by
  intro engine
  let opened : Progress Unit RecordStore := Run.start ⟨(), .empty, 0⟩ none
  have hopened : Run.InUse engine ⟨[], opened⟩ := .start (by simp [RecordStore.empty])
  have hended : ((Run.opening engine ⟨0⟩ [] opened).bind fun l =>
      (l.run engine 10).map fun ended =>
        (ended.2.run.cancelled, ended.2.isCancelled, ended.2.records.length)) =
        some (false, false, 3) := by
    decide +kernel
  obtain ⟨l, hopening, hended⟩ := Option.bind_eq_some_iff.mp hended
  obtain ⟨ended, hrun, hended⟩ := Option.map_eq_some_iff.mp hended
  simp only [Prod.mk.injEq] at hended
  obtain ⟨hlive, hgoing, hlength⟩ := hended
  have used := hopened.invoked ⟨0⟩ []
  rw [Run.invoke_of_opening hopening, (Loop.of_run hrun).1] at used
  obtain ⟨hnothing, _, _⟩ := used.redelivers_nothing hlive hgoing
  exact ⟨_, used, hlive, hgoing, hlength, hnothing _ fun r hr => List.mem_reverse.mp hr⟩

end ConceptSync
