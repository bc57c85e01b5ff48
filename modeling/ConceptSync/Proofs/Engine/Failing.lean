import ConceptSync.Proofs.Engine.CycleGuard

set_option autoImplicit false
set_option relaxedAutoImplicit false

/-!
Failures and where they surface. The crash of an action from outside is the caller's failure and
leaves the run as it was. A failure inside the cascade gives up its own branch, once, under the name
of its rule and its trigger; it never comes back to the caller, and the store never refuses a
completion of queued work.
-/

namespace ConceptSync

variable {σ : Type}

structure Engine.Admits (engine : Engine σ) (records : List Record) (name : String)
    (input : Payload) (trigger : Record) : Prop where
  depth : trigger.depth + 1 ≤ engine.config.maxDepth
  new : engine.config.cycleGuard = true → ¬RepeatsChain records name input trigger

/-- The branches that a piece of work of a run gives up, by what it meets: a clause that fails or
panics, frames that leave a variable unbound, a limit of the cascade or a crash of the action. -/
inductive Work.GivesUp (engine : Engine σ) (p : Progress σ RecordStore) :
    Work σ → List AbortedBranch → Prop
  | matched (action : ActionId) (record : Record) : GivesUp engine p (.complete action record) []
  | clauseFailed {rule : Rule σ} {frames : List Frame} {trigger : Record}
      {clause : Refinement σ} {failure : Failure} {world : σ} :
      rule.clauses.whereClause = some clause →
      clause frames p.stage.world = (.failed failure, world) →
      GivesUp engine p (.evaluate rule frames trigger)
        [⟨rule.name, trigger.seq, refinementError rule failure⟩]
  | clausePanicked {rule : Rule σ} {frames : List Frame} {trigger : Record}
      {clause : Refinement σ} {message : Option String} {world : σ} :
      rule.clauses.whereClause = some clause →
      clause frames p.stage.world = (.broken (.panicked message), world) →
      GivesUp engine p (.evaluate rule frames trigger)
        [⟨rule.name, trigger.seq, .callback (panicMessage message)⟩]
  | clauseElapsed {rule : Rule σ} {frames : List Frame} {trigger : Record}
      {clause : Refinement σ} {world : σ} :
      rule.clauses.whereClause = some clause →
      clause frames p.stage.world = (.broken .elapsed, world) →
      GivesUp engine p (.evaluate rule frames trigger) []
  /-- Of the frames that the clause leaves, each one with an unbound variable is given up, -/
  | refined {rule : Rule σ} {frames : List Frame} {trigger : Record} {clause : Refinement σ}
      {left : List Frame} {world : σ} :
      rule.clauses.whereClause = some clause →
      clause frames p.stage.world = (.ok left, world) →
      GivesUp engine p (.evaluate rule frames trigger) (left.flatMap (rule.abandoned trigger))
  /-- and of all frames if there is no clause. -/
  | unrefined {rule : Rule σ} {frames : List Frame} {trigger : Record} :
      rule.clauses.whereClause = none →
      GivesUp engine p (.evaluate rule frames trigger) (frames.flatMap (rule.abandoned trigger))
  | tooDeep {rule : Rule σ} {action : ActionId} {input : Payload} {trigger : Record} :
      engine.config.maxDepth < trigger.depth + 1 →
      GivesUp engine p (.invoke rule action input trigger)
        [⟨rule.name, trigger.seq, .depthExceeded (engine.registry.nameOf action)
          (trigger.depth + 1) engine.config.maxDepth⟩]
  | cycle {rule : Rule σ} {action : ActionId} {input : Payload} {trigger : Record} :
      trigger.depth + 1 ≤ engine.config.maxDepth → engine.config.cycleGuard = true →
      RepeatsChain p.records (engine.registry.nameOf action) input trigger →
      GivesUp engine p (.invoke rule action input trigger)
        [⟨rule.name, trigger.seq, .cycleDetected (engine.registry.nameOf action)⟩]
  | crashed {rule : Rule σ} {action : ActionId} {input : Payload} {trigger : Record}
      {failure : Failure} {world : σ} :
      engine.Admits p.records (engine.registry.nameOf action) input trigger →
      engine.registry.perform action input p.stage.world = (.failed failure, world) →
      GivesUp engine p (.invoke rule action input trigger)
        [⟨rule.name, trigger.seq,
          .operationFailed (engine.registry.nameOf action) failure.message⟩]
  | completed {rule : Rule σ} {action : ActionId} {input : Payload} {trigger : Record}
      {output : Payload} {world : σ} :
      engine.Admits p.records (engine.registry.nameOf action) input trigger →
      engine.registry.perform action input p.stage.world = (.ok output, world) →
      GivesUp engine p (.invoke rule action input trigger) []
  | brokenOff {rule : Rule σ} {action : ActionId} {input : Payload} {trigger : Record}
      {b : Break} {world : σ} :
      engine.Admits p.records (engine.registry.nameOf action) input trigger →
      engine.registry.perform action input p.stage.world = (.broken b, world) →
      GivesUp engine p (.invoke rule action input trigger) []

private theorem Engine.Admits.not_tooDeep {engine : Engine σ} {records : List Record}
    {name : String}
    {input : Payload} {trigger : Record} (h : engine.Admits records name input trigger) :
    ¬engine.config.maxDepth < trigger.depth + 1 := by
  have := h.depth
  omega

theorem Work.GivesUp.unique {engine : Engine σ} {p : Progress σ RecordStore} {work : Work σ}
    {given given' : List AbortedBranch} (h : work.GivesUp engine p given)
    (h' : work.GivesUp engine p given') : given = given' := by
  cases h with
  | matched _ _ => cases h'; rfl
  | clauseFailed hclause hran => cases h' <;> simp_all
  | clausePanicked hclause hran => cases h' <;> simp_all
  | clauseElapsed hclause hran => cases h' <;> simp_all
  | refined hclause hran => cases h' <;> simp_all
  | unrefined hclause => cases h' <;> simp_all
  | tooDeep hdepth =>
    cases h' with
    | tooDeep _ => rfl
    | cycle hwithin _ _ => omega
    | crashed hadmits _ => exact absurd hdepth hadmits.not_tooDeep
    | completed hadmits _ => exact absurd hdepth hadmits.not_tooDeep
    | brokenOff hadmits _ => exact absurd hdepth hadmits.not_tooDeep
  | cycle hwithin hguard hrepeats =>
    cases h' with
    | tooDeep hdepth => omega
    | cycle _ _ _ => rfl
    | crashed hadmits _ => exact absurd hrepeats (hadmits.new hguard)
    | completed hadmits _ => exact absurd hrepeats (hadmits.new hguard)
    | brokenOff hadmits _ => exact absurd hrepeats (hadmits.new hguard)
  | crashed hadmits hperform =>
    cases h' with
    | tooDeep hdepth => exact absurd hdepth hadmits.not_tooDeep
    | cycle _ hguard hrepeats => exact absurd hrepeats (hadmits.new hguard)
    | crashed _ _ => simp_all
    | completed _ _ => simp_all
    | brokenOff _ _ => simp_all
  | completed hadmits hperform =>
    cases h' with
    | tooDeep hdepth => exact absurd hdepth hadmits.not_tooDeep
    | cycle _ hguard hrepeats => exact absurd hrepeats (hadmits.new hguard)
    | crashed _ _ => simp_all
    | completed _ _ => rfl
    | brokenOff _ _ => rfl
  | brokenOff hadmits hperform =>
    cases h' with
    | tooDeep hdepth => exact absurd hdepth hadmits.not_tooDeep
    | cycle _ hguard hrepeats => exact absurd hrepeats (hadmits.new hguard)
    | crashed _ _ => simp_all
    | completed _ _ => rfl
    | brokenOff _ _ => rfl

/-- A piece of work gives up what fails in it, and either leads on or is broken off. -/
structure Work.Contains (engine : Engine σ) (work : Work σ) (p : Progress σ RecordStore) : Prop where
  givesUp : ∃ given, work.GivesUp engine p given ∧
    (step engine work p).2.run.aborted = p.run.aborted ++ given
  answer : (∃ next, (step engine work p).1 = .ok next) ∨
    ∃ b, (step engine work p).1 = .error (.broken b) ∧
      (step engine work p).2.run.aborted = p.run.aborted

section Step

variable {engine : Engine σ} {rule : Rule σ} {trigger : Record} {p q : Progress σ RecordStore}
  {work : Work σ}

private theorem Work.Contains.of_step {given : List AbortedBranch} {next : List (Work σ)}
    (hgiven : work.GivesUp engine p given) (hstep : step engine work p = (.ok next, q))
    (haborted : q.run.aborted = p.run.aborted ++ given) : work.Contains engine p :=
  ⟨⟨given, hgiven, by rw [hstep, haborted]⟩, .inl ⟨next, by rw [hstep]⟩⟩

private theorem Work.Contains.of_broken {b : Break} (hgiven : work.GivesUp engine p [])
    (hstep : step engine work p = (.error (.broken b), q))
    (haborted : q.run.aborted = p.run.aborted) : work.Contains engine p :=
  ⟨⟨[], hgiven, by rw [hstep, haborted, List.append_nil]⟩,
    .inr ⟨b, by rw [hstep], by rw [hstep, haborted]⟩⟩

private theorem contains_frames {frames left : List Frame} {world : σ}
    (hgiven : (Work.evaluate rule frames trigger).GivesUp engine p
      (left.flatMap (rule.abandoned trigger)))
    (hrefine : refine rule frames p.stage.world = (.frames left, world)) :
    (Work.evaluate rule frames trigger).Contains engine p := by
  cases left with
  | nil => exact .of_step hgiven (evaluate_of_no_frames hrefine) (List.append_nil _).symm
  | cons f rest => exact .of_step hgiven (evaluate_of_frames hrefine) rfl

private theorem contains_evaluate (engine : Engine σ) (rule : Rule σ) (frames : List Frame)
    (trigger : Record) (p : Progress σ RecordStore) :
    (Work.evaluate rule frames trigger).Contains engine p := by
  cases hclause : rule.clauses.whereClause with
  | none =>
    exact contains_frames (.unrefined hclause)
      (refine_of_no_clause frames p.stage.world (by simp [hclause]))
  | some clause =>
    rcases hran : clause frames p.stage.world with ⟨outcome, world⟩
    cases outcome with
    | ok left =>
      have hrefine : refine rule frames p.stage.world = (.frames left, world) := by
        simp [refine, hclause, hran]
      exact contains_frames (.refined hclause hran) hrefine
    | failed failure =>
      have hrefine : refine rule frames p.stage.world =
          (.error (refinementError rule failure), world) := by simp [refine, hclause, hran]
      exact .of_step (.clauseFailed hclause hran) (evaluate_of_error hrefine) rfl
    | broken b =>
      cases b with
      | panicked message =>
        have hrefine : refine rule frames p.stage.world =
            (.error (.callback (panicMessage message)), world) := by simp [refine, hclause, hran]
        exact .of_step (.clausePanicked hclause hran) (evaluate_of_error hrefine) rfl
      | elapsed =>
        have hrefine : refine rule frames p.stage.world = (.broken .elapsed, world) := by
          simp [refine, hclause, hran]
        exact .of_broken (.clauseElapsed hclause hran) (evaluate_of_broken hrefine) rfl

theorem Progress.refusal_cases (engine : Engine σ) (hstore : p.stage.store.Reachable)
    (hgrown : Grown p.records) (htrigger : trigger ∈ p.records) (name : String) (input : Payload) :
    (engine.config.maxDepth < trigger.depth + 1 ∧
        refusal engine name input trigger p.stage.store =
          .ok (some (.depthExceeded name (trigger.depth + 1) engine.config.maxDepth))) ∨
      (trigger.depth + 1 ≤ engine.config.maxDepth ∧ engine.config.cycleGuard = true ∧
        RepeatsChain p.records name input trigger ∧
        refusal engine name input trigger p.stage.store = .ok (some (.cycleDetected name))) ∨
      (engine.Admits p.records name input trigger ∧
        refusal engine name input trigger p.stage.store = .ok none) := by
  by_cases hdepth : trigger.depth + 1 ≤ engine.config.maxDepth
  · refine .inr ?_
    cases hguard : engine.config.cycleGuard with
    | false =>
      have hlimit : ¬engine.config.maxDepth < trigger.depth + 1 := by omega
      refine .inr ⟨⟨hdepth, by simp [hguard]⟩, ?_⟩
      simp [refusal, hlimit, hguard]
    | true =>
      obtain ⟨hrefused, hallowed⟩ := refusal_eq hguard hstore hgrown htrigger hdepth name input
      by_cases hrepeats : RepeatsChain p.records name input trigger
      · exact .inl ⟨hdepth, rfl, hrepeats, hrefused hrepeats⟩
      · exact .inr ⟨⟨hdepth, fun _ => hrepeats⟩, hallowed hrepeats⟩
  · have hlimit : engine.config.maxDepth < trigger.depth + 1 := by omega
    exact .inl ⟨hlimit, by simp [refusal, hlimit]⟩

private theorem contains_invoke (rule : Rule σ) (action : ActionId) (input : Payload)
    (hstore : p.stage.store.Reachable) (hgrown : Grown p.records) (htrigger : trigger ∈ p.records) :
    (Work.invoke rule action input trigger).Contains engine p := by
  rcases Progress.refusal_cases engine hstore hgrown htrigger (engine.registry.nameOf action)
    input with
    ⟨hdepth, hrefused⟩ | ⟨hdepth, hguard, hrepeats, hrefused⟩ | ⟨hadmits, hallowed⟩
  · exact .of_step (.tooDeep hdepth) (invoke_of_refused hrefused) rfl
  · exact .of_step (.cycle hdepth hguard hrepeats) (invoke_of_refused hrefused) rfl
  · rcases hperform : engine.registry.perform action input p.stage.world with ⟨outcome, world⟩
    cases outcome with
    | failed failure =>
      exact .of_step (.crashed hadmits hperform) (invoke_of_failed hallowed hperform) rfl
    | broken b =>
      exact .of_broken (.brokenOff hadmits hperform) (invoke_of_broken hallowed hperform) rfl
    | ok output =>
      have hdispatched := Progress.dispatched engine rule action input hstore htrigger
      generalize hstep : step engine (.invoke rule action input trigger) p = stepped at hdispatched
      cases hdispatched with
      | refused error hrefused => cases hrefused.symm.trans hallowed
      | failed failure world' error hfailed => cases hfailed.symm.trans hperform
      | broken b world' hbroken => cases hbroken.symm.trans hperform
      | @kept child q hkept =>
        exact .of_step (.completed hadmits hperform) hstep (by rw [hkept.run, List.append_nil])

private theorem contains_step (engine : Engine σ) (hstore : p.stage.store.Reachable)
    (hgrown : Grown p.records) (hwork : work.record ∈ p.records) : work.Contains engine p := by
  cases work with
  | complete action record =>
    refine ⟨⟨_, .matched action record, ?_⟩, .inl ⟨_, rfl⟩⟩
    simp only [step, completeRecord, List.append_nil]
    split <;> rfl
  | evaluate rule frames trigger => exact contains_evaluate engine rule frames trigger p
  | invoke rule action input trigger => exact contains_invoke rule action input hstore hgrown hwork

end Step

/-- The loop of a run gives up what fails and goes on with the rest. -/
structure Loop.Contains (engine : Engine σ) (l : Loop σ RecordStore) : Prop where
  /-- The store keeps whatever is to be kept as a child of the completion of queued work. -/
  kept : ∀ work ∈ l.stack, ∀ d, ∃ r, (l.progress.stage.store.appendChild work.record.seq d).1 = .ok r
  turns : ∀ l', l.turn engine = .inl l' → ∃ work rest next given, l.stack = work :: rest ∧
    l'.stack = next ++ rest ∧ work.GivesUp engine l.progress given ∧
    l'.progress.run.aborted = l.progress.run.aborted ++ given
  /-- The loop ends with its work done, cancelled, or broken off: never with a failure. -/
  ends : ∀ result p, l.turn engine = .inr (result, p) →
    p.run.aborted = l.progress.run.aborted ∧
      (result = .ok () ∧ (l.stack = [] ∨ l.progress.isCancelled = true) ∨
        ∃ b, result = .error (.broken b))

/-- What invoking an action from outside comes to in a run: a failure if there is no such action or
the action itself fails, and then the run is as it was. All other failures are given up. -/
structure Run.Surfaces (engine : Engine σ) (action : ActionId) (input : Payload)
    (p : Progress σ RecordStore) : Prop where
  failed_iff : (∃ failure, (invoke engine action input p).1 = .error (.failed failure)) ↔
    engine.registry.kind? action ≠ some .action ∨
      ∃ failure world, engine.registry.perform action input p.stage.world = (.failed failure, world)
  unknown : engine.registry.kind? action ≠ some .action →
    invoke engine action input p =
      (.error (.failed (.engine (.unknownAction (engine.registry.nameOf action)))), p)
  crashed : ∀ failure world, engine.registry.kind? action = some .action →
    engine.registry.perform action input p.stage.world = (.failed failure, world) →
    (invoke engine action input p).1 = .error (.failed (.engine
      (.operationFailed (engine.registry.nameOf action) failure.message)))
  unchanged : ∀ failure, (invoke engine action input p).1 = .error (.failed failure) →
    (invoke engine action input p).2.run = p.run ∧
      (invoke engine action input p).2.stage.store = p.stage.store
  aborted : ∀ l, opening engine action input p = some l → ∃ given,
    List.Forall₂ (fun done branches => done.1.GivesUp engine done.2 branches) (l.history engine)
      given ∧
    (invoke engine action input p).2.run.aborted = p.run.aborted ++ given.flatten

namespace Run.Course

variable {engine : Engine σ} {redelivers : Prop} {ms : List (Matching σ)} {l : Loop σ RecordStore}

private theorem contains_next (h : Course engine redelivers ms l) {work : Work σ}
    (hwork : work ∈ l.stack) : work.Contains engine l.progress :=
  contains_step engine h.reachable h.grown (h.queued work hwork)

private theorem contains (h : Course engine redelivers ms l) : l.Contains engine where
  kept work hwork d := by
    have hread := h.reachable.read_of_mem (Progress.mem_records.mp (h.queued work hwork)).1
    unfold RecordStore.appendChild
    rw [hread]
    exact ⟨_, rfl⟩
  turns l' hturn := by
    obtain ⟨work, rest, next, hstack, _, hstep, hstack'⟩ := Loop.turn_cases hturn
    have hwork : work ∈ l.stack := by simp [hstack]
    obtain ⟨given, hgiven, haborted⟩ := (h.contains_next hwork).givesUp
    rw [hstep] at haborted
    exact ⟨work, rest, next, given, hstack, hstack', hgiven, haborted⟩
  ends result p hturn := by
    rcases Loop.turn_ends hturn with ⟨_, hstack, heq⟩ | ⟨_, hcancel, heq⟩ |
      ⟨work, rest, halt, hstack, _, hstep, hhalt⟩
    · cases heq
      exact ⟨rfl, .inl ⟨rfl, .inl hstack⟩⟩
    · cases heq
      exact ⟨rfl, .inl ⟨rfl, .inr hcancel⟩⟩
    · have hwork : work ∈ l.stack := by simp [hstack]
      have hanswer := (h.contains_next hwork).answer
      rw [hstep] at hanswer
      rcases hanswer with ⟨_, hok⟩ | ⟨b, hbroken, haborted⟩
      · cases hok
      · obtain rfl := Except.error.inj hbroken
        exact ⟨haborted, .inr ⟨b, hhalt⟩⟩

private theorem contains_drain (h : Course engine redelivers ms l) :
    (∃ given, List.Forall₂ (fun done branches => done.1.GivesUp engine done.2 branches)
        (l.history engine) given ∧
      (drain engine l.stack l.progress).2.run.aborted =
        l.progress.run.aborted ++ given.flatten) ∧
    ∀ failure, (drain engine l.stack l.progress).1 ≠ .error (.failed failure) := by
  induction l using (Loop.wellFounded_turn RecordStore engine).induction generalizing ms with
  | h l ih => ?_
  rw [Loop.drain_eq_turn, Loop.history_eq_turn]
  rcases hturn : l.turn engine with l' | ⟨result, p⟩
  · obtain ⟨work, rest, next, hstack, hnext, hstep, _⟩ := Loop.turn_cases hturn
    have hwork : work ∈ l.stack := by simp [hstack]
    obtain ⟨given, hgiven, haborted⟩ := (h.contains_next hwork).givesUp
    obtain ⟨⟨later, hlater, hrest⟩, hanswer⟩ := ih l' hturn (h.turn hturn)
    rw [hstep] at haborted
    refine ⟨⟨given :: later, ?_, ?_⟩, hanswer⟩
    · rw [hnext]
      exact .cons hgiven hlater
    · rw [hrest, haborted, List.flatten_cons, List.append_assoc]
  · obtain ⟨haborted, hends⟩ := h.contains.ends result p hturn
    refine ⟨?_, fun failure hfailed => ?_⟩
    · rcases Loop.turn_ends hturn with ⟨hnext, _⟩ | ⟨hnext, _⟩ |
        ⟨work, rest, halt, hstack, hnext, hstep, _⟩
      · exact ⟨[], by simp [hnext], by simpa using haborted⟩
      · exact ⟨[], by simp [hnext], by simpa using haborted⟩
      · have hwork : work ∈ l.stack := by simp [hstack]
        obtain ⟨given, hgiven, hgave⟩ := (h.contains_next hwork).givesUp
        rw [hstep] at hgave
        exact ⟨[given], by simp [hnext, hgiven], by simpa using hgave⟩
    · rcases hends with ⟨rfl, _⟩ | ⟨b, rfl⟩ <;> cases hfailed

private theorem surfaces_of_opening {p : Progress σ RecordStore}
    (h : Course engine redelivers ms ⟨[], p⟩) {action : ActionId} {input : Payload}
    (hopening : opening engine action input p = some l) : Surfaces engine action input p := by
  obtain ⟨_, output, _, hrun, _, hkind, hperform⟩ := opening_cases hopening
  obtain ⟨record, _, hinvoke⟩ := invoke_eq_of_opening hopening
  obtain ⟨hgiven, hanswer⟩ := (h.invoke action input hopening).contains_drain
  have hnever : ∀ failure, (Run.invoke engine action input p).1 ≠ .error (.failed failure) := by
    intro failure hfailed
    rw [hinvoke] at hfailed
    cases hdrain : (drain engine l.stack l.progress).1 with
    | ok _ => simp [hdrain, Except.map] at hfailed
    | error halt =>
      simp only [hdrain, Except.map] at hfailed
      obtain rfl := Except.error.inj hfailed
      exact hanswer failure hdrain
  exact {
    failed_iff := by simp [hnever, hkind, hperform]
    unknown := fun hother => absurd hkind hother
    crashed := fun failure world _ hfailed => by cases hperform.symm.trans hfailed
    unchanged := fun failure hfailed => absurd hfailed (hnever failure)
    aborted := fun l' hl' => by
      obtain rfl := Option.some.inj (hopening.symm.trans hl')
      rw [hinvoke, ← hrun]
      exact hgiven }

private theorem surfaces {p : Progress σ RecordStore} (h : Course engine redelivers ms ⟨[], p⟩)
    (action : ActionId) (input : Payload) : Surfaces engine action input p := by
  cases hopening : opening engine action input p with
  | some l => exact h.surfaces_of_opening hopening
  | none =>
    by_cases hkind : engine.registry.kind? action = some .action
    · rcases hperform : engine.registry.perform action input p.stage.world with ⟨outcome, world⟩
      cases outcome with
      | ok output =>
        obtain ⟨l, hl⟩ := opening_of_perform hkind hperform
        cases hopening.symm.trans hl
      | failed failure =>
        have hinvoke : Run.invoke engine action input p = (.error (.failed (.engine
            (.operationFailed (engine.registry.nameOf action) failure.message))),
              p.withWorld world) := by simp [Run.invoke, hkind, hperform]
        exact {
          failed_iff := by simp [hinvoke, hperform]
          unknown := fun hother => absurd hkind hother
          crashed := fun failure' world' _ hfailed => by
            cases hperform.symm.trans hfailed
            rw [hinvoke]
          unchanged := fun _ _ => by rw [hinvoke]; exact ⟨rfl, rfl⟩
          aborted := fun l hl => by cases hopening.symm.trans hl }
      | broken b =>
        have hinvoke : Run.invoke engine action input p =
            (.error (.broken b), p.withWorld world) := by simp [Run.invoke, hkind, hperform]
        exact {
          failed_iff := by simp [hinvoke, hkind, hperform]
          unknown := fun hother => absurd hkind hother
          crashed := fun failure' world' _ hfailed => by cases hperform.symm.trans hfailed
          unchanged := fun _ hfailed => by rw [hinvoke] at hfailed; cases hfailed
          aborted := fun l hl => by cases hopening.symm.trans hl }
    · have hinvoke : Run.invoke engine action input p =
          (.error (.failed (.engine (.unknownAction (engine.registry.nameOf action)))), p) := by
        simp [Run.invoke, hkind]
      exact {
        failed_iff := by simp [hinvoke, hkind]
        unknown := fun _ => hinvoke
        crashed := fun _ _ haction _ => absurd haction hkind
        unchanged := fun _ _ => by rw [hinvoke]; exact ⟨rfl, rfl⟩
        aborted := fun l hl => by cases hopening.symm.trans hl }

/-- At every moment of a run, what fails in the cascade is given up and the rest goes on, and
between its invocations an action from outside fails by itself alone. -/
theorem contains_failures (h : Course engine redelivers ms l) :
    l.Contains engine ∧
      (l.stack = [] → ∀ action input, Surfaces engine action input l.progress) := by
  refine ⟨h.contains, fun hidle action input => ?_⟩
  obtain ⟨stack, p⟩ := l
  obtain rfl : stack = [] := hidle
  exact h.surfaces action input

end Run.Course

/-- The rule that says something whenever something was said gives up one branch, as a cycle, and
the caller is answered. What cannot be invoked is refused, and the run stays as it was. -/
theorem again_contains_failures :
    let engine := Engine.echo [.again] {}
    let p : Progress Unit RecordStore := Run.start ⟨(), .empty, 0⟩ none
    Run.Course engine True [] ⟨[], p⟩ ∧ Loop.Contains engine ⟨[], p⟩ ∧
      (Run.invoke engine ⟨0⟩ [] p).2.run.aborted =
        [⟨"Again", 1, .cycleDetected "Echo.say"⟩] ∧
      (¬∃ failure, (Run.invoke engine ⟨0⟩ [] p).1 = .error (.failed failure)) ∧
      (∃ failure, (Run.invoke engine ⟨1⟩ [] p).1 = .error (.failed failure)) ∧
      (Run.invoke engine ⟨1⟩ [] p).2.run = p.run := by
  intro engine p
  have course : Run.Course engine True [] ⟨[], p⟩ :=
    .start ⟨[], rfl⟩ (by simp [RecordStore.empty])
  obtain ⟨hcontains, hsurfaces⟩ := course.contains_failures
  have hknown : ¬∃ failure, (Run.invoke engine ⟨0⟩ [] p).1 = .error (.failed failure) := by
    rw [(hsurfaces rfl ⟨0⟩ []).failed_iff]
    rintro (hkind | ⟨failure, world, hperform⟩)
    · exact hkind rfl
    · cases hperform
  obtain ⟨failure, hfailed⟩ := (hsurfaces rfl ⟨1⟩ []).failed_iff.mpr (.inl (by decide))
  have hkept := ((hsurfaces rfl ⟨1⟩ []).unchanged failure hfailed).1
  refine ⟨course, hcontains, ?_, hknown, ⟨failure, hfailed⟩, hkept⟩
  obtain ⟨l, hopening⟩ : ∃ l, Run.opening engine ⟨0⟩ [] p = some l := ⟨_, rfl⟩
  obtain ⟨result, hrun, haborted⟩ : ∃ result, l.run engine 4 = some result ∧
      result.2.run.aborted = [⟨"Again", 1, .cycleDetected "Echo.say"⟩] := by
    cases hopening
    exact ⟨_, rfl, rfl⟩
  rw [Run.invoke_of_opening hopening, (Loop.of_run hrun).1, haborted]

end ConceptSync
