import ConceptSync.Proofs.Engine.Course

set_option autoImplicit false
set_option relaxedAutoImplicit false

/-!
Calls and completions. The calls of an action that always completes are those of which a run keeps
completions, in the same order and with the same inputs.
-/

namespace ConceptSync

variable {σ : Type}

/-- The inputs of the calls of an action among the calls of a run. -/
def callsOf (registry : Registry σ) (name : String) (calls : List (Activity σ)) : List Payload :=
  calls.filterMap fun call => match call with
    | .performed action input _ => if registry.nameOf action = name then some input else none
    | .refined _ _ _ => none

def Activity.succeeds (registry : Registry σ) (name : String) : Activity σ → Bool
  | .performed action input world =>
    registry.nameOf action == name &&
      match (registry.perform action input world).1 with
      | .ok output => !output.isError
      | _ => false
  | .refined _ _ _ => false

def completionsOf (name : String) (records : List Record) : List Record :=
  records.filter fun r => r.action == name

private theorem callsOf_append (registry : Registry σ) (name : String)
    (calls later : List (Activity σ)) :
    callsOf registry name (calls ++ later) =
      callsOf registry name calls ++ callsOf registry name later :=
  List.filterMap_append ..

theorem Activity.succeeds_iff {registry : Registry σ} {name : String} {call : Activity σ} :
    call.succeeds registry name = true ↔ ∃ action input world output after,
      call = .performed action input world ∧ registry.nameOf action = name ∧
      registry.perform action input world = (.ok output, after) ∧ output.isError = false := by
  cases call with
  | refined rule frames world => simp [succeeds]
  | performed action input world =>
    rcases hperform : registry.perform action input world with ⟨outcome, after⟩
    cases outcome <;> simp [succeeds, hperform]

private theorem eq_of_filterMap_singleton {α β : Type} {f : α → Option β} {l : List α} {b : β}
    (h : l.filterMap f = [b]) {x y : α} (hx : x ∈ l) (hfx : f x ≠ none) (hy : y ∈ l)
    (hfy : f y ≠ none) : x = y := by
  obtain ⟨before, found, after, rfl, hbefore, -, hafter⟩ := List.filterMap_eq_cons_iff.mp h
  have hfound (z : α) (hz : z ∈ before ++ found :: after) (hfz : f z ≠ none) : z = found := by
    rcases List.mem_append.mp hz with hz | hz
    · exact absurd (hbefore z hz) hfz
    · rcases List.mem_cons.mp hz with heq | hz
      · exact heq
      · exact absurd (List.filterMap_eq_nil_iff.mp hafter z hz) hfz
  exact (hfound x hx hfx).trans (hfound y hy hfy).symm

theorem unique_of_callsOf {registry : Registry σ} {name : String} {calls : List (Activity σ)}
    {input : Payload} (honce : callsOf registry name calls = [input]) {action : ActionId}
    {given : Payload} {world : σ} (hcall : .performed action given world ∈ calls)
    (hname : registry.nameOf action = name) {action' : ActionId} {given' : Payload} {world' : σ}
    (hcall' : .performed action' given' world' ∈ calls) (hname' : registry.nameOf action' = name) :
    Activity.performed action given world = .performed action' given' world' :=
  eq_of_filterMap_singleton honce hcall (by simp [hname]) hcall' (by simp [hname'])

theorem completionsOf_append (name : String) (records later : List Record) :
    completionsOf name (records ++ later) =
      completionsOf name records ++ completionsOf name later :=
  List.filter_append ..

theorem completionsOf_kept {engine : Engine σ} {action : ActionId} {input : Payload}
    {trigger child : Record} {p q : Progress σ RecordStore}
    (h : Kept engine action input trigger child p q) (name : String) :
    completionsOf name q.records = completionsOf name p.records ++
      if engine.registry.nameOf action = name then [child] else [] := by
  rw [h.records, completionsOf_append]
  congr 1
  by_cases hname : engine.registry.nameOf action = name <;>
    simp [completionsOf, h.action, hname]

/-- An action that always completes: it neither fails nor is broken off. -/
def Registry.Completes (registry : Registry σ) (name : String) : Prop :=
  ∀ action input world, registry.nameOf action = name →
    ∃ output after, registry.perform action input world = (.ok output, after)

def performances (registry : Registry σ) (calls : List (Activity σ)) :
    List (ActionId × Payload × Outcome Payload) :=
  calls.filterMap fun call => match call with
    | .performed action input world => some (action, input, (registry.perform action input world).1)
    | .refined _ _ _ => none

def completedOf (registry : Registry σ) (calls : List (Activity σ)) :
    List (String × Payload × Payload) :=
  (performances registry calls).filterMap fun done => match done.2.2 with
    | .ok output => some (registry.nameOf done.1, done.2.1, output)
    | _ => none

def Record.told (r : Record) : String × Payload × Payload := (r.action, r.input, r.output)

theorem performances_append (registry : Registry σ) (calls later : List (Activity σ)) :
    performances registry (calls ++ later) =
      performances registry calls ++ performances registry later :=
  List.filterMap_append ..

theorem completedOf_append (registry : Registry σ) (calls later : List (Activity σ)) :
    completedOf registry (calls ++ later) =
      completedOf registry calls ++ completedOf registry later := by
  simp only [completedOf, performances_append, List.filterMap_append]

variable {engine : Engine σ} {name : String}

private theorem told_step (engine : Engine σ) {work : Work σ} {p : Progress σ RecordStore}
    (hstore : p.stage.store.Reachable) (hwork : work.record ∈ p.records) :
    (step engine work p).2.records.map Record.told =
      p.records.map Record.told ++ completedOf engine.registry (work.activities engine p) := by
  cases work with
  | complete action record =>
    rcases Progress.records_step engine hstore hwork with ⟨hsame, _⟩ | ⟨_, _, _, _, _, h, _⟩
    · rw [hsame]
      exact (List.append_nil _).symm
    · cases h
  | evaluate rule frames trigger =>
    rcases Progress.records_step engine hstore hwork with ⟨hsame, _⟩ | ⟨_, _, _, _, _, h, _⟩
    · rw [hsame]
      simp only [Work.activities, Rule.refinementCall]
      split <;> exact (List.append_nil _).symm
    · cases h
  | invoke rule action input trigger =>
    have htrigger : trigger ∈ p.records := hwork
    have hdispatched := Progress.dispatched engine rule action input hstore htrigger
    have hnone (hfails : ∀ output, (engine.registry.perform action input p.stage.world).1 ≠
        .ok output) :
        completedOf engine.registry
          (Work.activities engine (.invoke rule action input trigger) p) = [] := by
      simp only [Work.activities]
      split
      · cases houtcome : (engine.registry.perform action input p.stage.world).1 with
        | ok output => exact absurd houtcome (hfails output)
        | _ => simp [completedOf, performances, houtcome]
      · rfl
    generalize step engine (.invoke rule action input trigger) p = stepped at hdispatched
    cases hdispatched with
    | refused error hrefused =>
      simp only [Work.activities, hrefused]
      exact (List.append_nil _).symm
    | failed failure world error hperform =>
      rw [hnone (by simp [hperform]), List.append_nil]
      rfl
    | broken b world hperform =>
      rw [hnone (by simp [hperform]), List.append_nil]
      rfl
    | @kept child q hkept =>
      rw [hkept.records, List.map_append]
      simp [Work.activities, hkept.allowed, completedOf, performances, hkept.performed, Record.told,
        hkept.action, hkept.input]

def Loop.turnCalls (engine : Engine σ) (l : Loop σ RecordStore) : List (Activity σ) :=
  l.next?.toList.flatMap fun done => done.1.activities engine done.2

theorem Loop.turnCalls_of_next {l : Loop σ RecordStore} {work : Work σ}
    (h : l.next? = some (work, l.progress)) :
    l.turnCalls engine = work.activities engine l.progress := by
  simp [turnCalls, h]

namespace Run.Course

variable {redelivers : Prop} {ms : List (Matching σ)} {l l' : Loop σ RecordStore}

theorem told_turn (h : Course engine redelivers ms l) (hturn : l.turn engine = .inl l') :
    l'.progress.records.map Record.told = l.progress.records.map Record.told ++
      completedOf engine.registry (l.turnCalls engine) := by
  obtain ⟨work, rest, next, hstack, hnext, hstep, _⟩ := Loop.turn_cases hturn
  have hwork := told_step engine h.reachable (h.queued work (by simp [hstack]))
  rwa [hstep, ← Loop.turnCalls_of_next hnext] at hwork

theorem told_ended (h : Course engine redelivers ms l) {result : Except Halt Unit}
    {p : Progress σ RecordStore} (hturn : l.turn engine = .inr (result, p)) :
    p.records.map Record.told = l.progress.records.map Record.told ++
      completedOf engine.registry (l.turnCalls engine) := by
  rcases Loop.turn_ends hturn with ⟨hnext, _, heq⟩ | ⟨hnext, _, heq⟩ |
    ⟨work, rest, halt, hstack, hnext, hstep, _⟩
  · cases heq
    simp [Loop.turnCalls, hnext, completedOf, performances]
  · cases heq
    simp only [Loop.turnCalls, hnext]
    exact (List.append_nil _).symm
  · have hwork := told_step engine h.reachable (h.queued work (by simp [hstack]))
    rwa [hstep, ← Loop.turnCalls_of_next hnext] at hwork

private theorem told_drain (h : Course engine redelivers ms l) :
    (drain engine l.stack l.progress).2.records.map Record.told =
      l.progress.records.map Record.told ++
        completedOf engine.registry (l.activities engine) := by
  induction l using (Loop.wellFounded_turn RecordStore engine).induction generalizing ms with
  | h l ih => ?_
  rw [Loop.drain_eq_turn, Loop.activities_eq_turn, completedOf_append, ← List.append_assoc]
  rcases hturn : l.turn engine with l' | ⟨result, p⟩
  · exact (ih l' hturn (h.turn hturn)).trans (congrArg (· ++ _) (h.told_turn hturn))
  · exact (h.told_ended hturn).trans (List.append_nil _).symm

end Run.Course

private theorem inputs_completionsOf (name : String) (records : List Record) :
    (completionsOf name records).map Record.input =
      ((records.map Record.told).filter fun told => told.1 == name).map fun told => told.2.1 := by
  rw [List.filter_map, List.map_map]
  rfl

private theorem inputs_completedOf {registry : Registry σ} (hcompletes : registry.Completes name)
    (calls : List (Activity σ)) :
    ((completedOf registry calls).filter fun told => told.1 == name).map (fun told => told.2.1) =
      callsOf registry name calls := by
  induction calls with
  | nil => rfl
  | cons call rest ih =>
    rw [← List.singleton_append, completedOf_append, callsOf_append, List.filter_append,
      List.map_append, ih]
    congr 1
    cases call with
    | refined rule frames world => rfl
    | performed action input world =>
      by_cases hname : registry.nameOf action = name
      · obtain ⟨output, after, hperform⟩ := hcompletes action input world hname
        simp [completedOf, performances, callsOf, hperform, hname]
      · cases houtcome : (registry.perform action input world).1 <;>
          simp [completedOf, performances, callsOf, houtcome, hname]

theorem Run.Course.callsOf_drain (hcompletes : engine.registry.Completes name) {redelivers : Prop}
    {ms : List (Matching σ)} {l : Loop σ RecordStore} (h : Course engine redelivers ms l) :
    (completionsOf name (drain engine l.stack l.progress).2.records).map Record.input =
      (completionsOf name l.progress.records).map Record.input ++
        callsOf engine.registry name (l.activities engine) := by
  rw [inputs_completionsOf, inputs_completionsOf, h.told_drain, List.filter_append,
    List.map_append, inputs_completedOf hcompletes]

end ConceptSync
