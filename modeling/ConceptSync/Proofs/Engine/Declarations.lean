import ConceptSync.Proofs.Engine.Redelivery
import ConceptSync.Proofs.Rule.Checking

set_option autoImplicit false
set_option relaxedAutoImplicit false

/-!
Declarations at run time. The rules of an engine were checked once, when it was built; whatever
their refinements bind, a run makes only invocations of registered actions with declared fields, and
its records say so.
-/

namespace ConceptSync

variable {σ π : Type}

/-- An entry of the registry takes an invocation: it is the entry of the action, it admits the fields
of the input, and performing the action with that input is up to its concept. -/
structure Registry.Takes (r : Registry σ) (action : ActionId) (input : Payload) (e : Entry σ) :
    Prop where
  registered : r.entry? action = some e
  kind : e.operation.kind = .action
  admits : e.operation.Admits input.keys
  performs : r.perform action input = e.concept.perform e.operation.name input

private theorem Registry.Declares.takes {r : Registry σ} {action : ActionId} {input : Payload}
    (h : r.Declares action input.keys) : ∃ e, r.Takes action input e := by
  obtain ⟨e, hentry, hkind, hadmits⟩ := h
  exact ⟨e, hentry, hkind, hadmits, perform_of_entry hentry input⟩

def Engine.Declared (engine : Engine σ) : Prop :=
  ∀ rule ∈ engine.rules, rule.Declared engine.registry

private theorem Engine.declared_of_build {registry : Registry σ} {ds : List (RuleDefinition σ)}
    {config : EngineConfig} {engine : Engine σ} (h : Engine.build registry ds config = .ok engine) :
    engine.registry = registry ∧ engine.Declared := by
  unfold Engine.build at h
  split at h
  · next rules hrules =>
    cases h
    exact ⟨rfl, Rule.declared_of_instantiateAll hrules⟩
  · cases h

private theorem Rule.Declared.invocations {registry : Registry σ} {rule : Rule σ}
    (h : rule.Declared registry) (f : Frame) :
    ∀ i ∈ rule.invocations f, registry.Declares i.1 i.2.keys := by
  intro i hi
  obtain ⟨p, hp, haction, hresolve⟩ := Rule.mem_invocations hi
  rw [haction, Frame.keys_resolve hresolve]
  exact h p hp

def Work.Declared (engine : Engine σ) : Work σ → Prop
  | .complete _ _ => True
  | .evaluate rule _ _ => rule ∈ engine.rules
  | .invoke _ action input _ => engine.registry.Declares action input.keys

section

variable [RecordKeeper π] {engine : Engine σ}

private theorem declared_step (hengine : engine.Declared) {work : Work σ} {p : Progress σ π}
    (hwork : work.Declared engine) {next : List (Work σ)}
    (hnext : (step engine work p).1 = .ok next) : ∀ w ∈ next, w.Declared engine := by
  intro w hw
  cases work with
  | complete action record =>
    by_cases hseen : record.id ∈ p.run.seen
    · simp only [step, completeRecord_of_seen action hseen] at hnext
      cases hnext
      cases hw
    · simp only [step, completeRecord_of_unseen action hseen] at hnext
      cases hnext
      obtain ⟨firing, hfiring, rfl⟩ := List.mem_map.mp hw
      obtain ⟨k, hk, rfl⟩ := List.mem_mapIdx.mp (List.mem_filter.mp hfiring).1
      exact List.getElem_mem hk
  | evaluate rule frames trigger =>
    obtain ⟨_, _, _, f, _, i, hi, rfl⟩ := evaluate_step (Prod.ext hnext rfl) w hw
    exact (hengine rule hwork).invocations f i hi
  | invoke rule action input trigger =>
    obtain ⟨record, rfl⟩ := invoke_step hnext w hw
    trivial

namespace Loop

variable {l l' : Loop σ π}

private theorem declared_turn (hengine : engine.Declared) (h : ∀ w ∈ l.stack, w.Declared engine)
    (hturn : l.turn engine = .inl l') : ∀ w ∈ l'.stack, w.Declared engine := by
  obtain ⟨work, rest, next, hstack, _, hstep, hstack'⟩ := turn_cases hturn
  rw [hstack] at h
  rw [hstack']
  intro w hw
  rcases List.mem_append.mp hw with hnew | hold
  · exact declared_step hengine (h work (List.mem_cons_self ..)) (by rw [hstep]) w hnew
  · exact h w (List.mem_cons_of_mem _ hold)

private theorem declared_reaches (hengine : engine.Declared) (h : ∀ w ∈ l.stack, w.Declared engine)
    (hreach : Reaches engine l l') : ∀ w ∈ l'.stack, w.Declared engine := by
  induction hreach with
  | refl => exact h
  | tail _ hturn ih => exact declared_turn hengine ih hturn

private theorem declares_of_performed (hengine : engine.Declared)
    (h : ∀ w ∈ l.stack, w.Declared engine) {action : ActionId} {input : Payload} {world : σ}
    (hperformed : .performed action input world ∈ l.activities engine) :
    engine.registry.Declares action input.keys := by
  obtain ⟨l', rule, trigger, hreach, hqueued, _⟩ := invoke_of_performed hperformed
  exact declared_reaches hengine h hreach _ hqueued

end Loop

end

def Record.Declared (registry : Registry σ) (r : Record) : Prop :=
  ∃ action, r.action = registry.nameOf action ∧
    registry.Declares action (if r.depth = 0 then [] else r.input.keys)

structure Loop.Declared (engine : Engine σ) (l : Loop σ RecordStore) : Prop where
  queued : ∀ w ∈ l.stack, w.Declared engine
  records : ∀ r ∈ l.progress.records, r.Declared engine.registry

namespace Loop.Declared

variable {engine : Engine σ} {l l' : Loop σ RecordStore} {p : Progress σ RecordStore}

private theorem opening (h : Declared engine ⟨[], p⟩) {action : ActionId} {input : Payload}
    (hopening : Run.opening engine action input p = some l) : l.Declared engine := by
  obtain ⟨root, _, hstack, hrun, hkeep, hkind, _⟩ := Run.opening_cases hopening
  have happend := RecordStore.append_of_persist hkeep
  have hkeeps := (RecordStore.append_ok (congrArg Prod.fst happend)).2.1
  constructor
  · intro w hw
    rw [hstack] at hw
    obtain rfl := List.mem_singleton.mp hw
    trivial
  · intro r hr
    obtain ⟨hmem, hid⟩ := Progress.mem_records.mp hr
    rw [← show _ = l.progress.stage.store from congrArg Prod.snd happend] at hmem
    rw [hrun] at hid
    rcases RecordStore.mem_append.mp hmem with hold | hnew
    · exact h.records r (Progress.mem_records.mpr ⟨hold, hid⟩)
    · rw [happend] at hnew
      obtain rfl := Except.ok.inj hnew
      obtain ⟨e, hentry, hkind⟩ := Option.map_eq_some_iff.mp hkind
      refine ⟨action, hkeeps.action, e, hentry, hkind, ?_⟩
      rw [hkeeps.depth]
      exact fun _ _ _ hnone => nomatch hnone

private theorem records_step (h : ∀ r ∈ p.records, r.Declared engine.registry) {work : Work σ}
    (hwork : work.Declared engine) :
    ∀ r ∈ (step engine work p).2.records, r.Declared engine.registry := by
  intro r hr
  rcases mem_records_step hr with hold | ⟨_, action, _, _, rfl, _, _, haction⟩
  · exact h r hold
  · refine ⟨action, haction, Registry.Declares.mono hwork ?_⟩
    split
    · exact List.nil_subset _
    · exact fun _ => id

private theorem turn (hengine : engine.Declared) (h : l.Declared engine)
    (hturn : l.turn engine = .inl l') : l'.Declared engine := by
  refine ⟨Loop.declared_turn hengine h.queued hturn, ?_⟩
  obtain ⟨work, rest, next, hstack, _, hstep, _⟩ := Loop.turn_cases hturn
  have hrecords := records_step h.records (h.queued work (by simp [hstack]))
  rwa [hstep] at hrecords

private theorem ended (h : l.Declared engine) {result : Except Halt Unit}
    (hturn : l.turn engine = .inr (result, p)) : Declared engine ⟨[], p⟩ := by
  refine ⟨nofun, ?_⟩
  rcases Loop.turn_ends hturn with
    ⟨_, _, heq⟩ | ⟨_, _, heq⟩ | ⟨work, rest, halt, hstack, _, hstep, _⟩
  · cases heq
    exact h.records
  · cases heq
    exact h.records
  · have hrecords := records_step h.records (h.queued work (by simp [hstack]))
    rwa [hstep] at hrecords

end Loop.Declared

namespace Run.InUse

private theorem declared {engine : Engine σ} (hengine : engine.Declared) {l : Loop σ RecordStore}
    (h : InUse engine l) : l.Declared engine := by
  induction h with
  | start hfresh => exact ⟨nofun, by simp [records_start hfresh]⟩
  | elsewhere _ _ _ helsewhere ih =>
    obtain ⟨hqueued, hrecords⟩ := ih
    rw [Progress.records, ← RecordStore.readRun_after helsewhere] at hrecords
    exact ⟨hqueued, hrecords⟩
  | invoke _ _ _ hopening ih => exact ih.opening hopening
  | deliver _ _ hdelivery ih =>
    obtain ⟨_, rfl⟩ := redelivery_cases hdelivery
    refine ⟨fun w hw => ?_, ih.records⟩
    obtain rfl := List.mem_singleton.mp hw
    trivial
  | turn _ hturn ih => exact ih.turn hengine hturn
  | ended _ hturn ih => exact ih.ended hturn

/-- In an engine whose rules passed their checks when it was built, at any moment of any use of a
run: every invocation that is queued, and every one that is still performed, is taken by the entry of
a registered action, whose concept performs it; and every record of the run is of a registered
action under its qualified name, with declared fields alone unless it came from outside. -/
theorem within_declarations {registry : Registry σ} {ds : List (RuleDefinition σ)}
    {config : EngineConfig} {engine : Engine σ} (hbuild : Engine.build registry ds config = .ok engine)
    {l : Loop σ RecordStore} (h : InUse engine l) :
    (∀ rule action input trigger, .invoke rule action input trigger ∈ l.stack →
      ∃ e, registry.Takes action input e) ∧
    (∀ action input world, .performed action input world ∈ l.activities engine →
      ∃ e, registry.Takes action input e) ∧
    ∀ r ∈ l.progress.records, ∃ action e, registry.entry? action = some e ∧
      e.operation.kind = .action ∧ r.action = e.qualified ∧
      (0 < r.depth → registry.Takes action r.input e) := by
  obtain ⟨rfl, hengine⟩ := Engine.declared_of_build hbuild
  have hdeclared := h.declared hengine
  refine ⟨fun rule action input trigger hqueued => ?_, fun action input world hperformed => ?_,
    fun r hr => ?_⟩
  · have hdeclares : engine.registry.Declares action input.keys := hdeclared.queued _ hqueued
    exact hdeclares.takes
  · exact (Loop.declares_of_performed hengine hdeclared.queued hperformed).takes
  · obtain ⟨action, hname, e, hentry, hkind, hadmits⟩ := hdeclared.records r hr
    have hqualified : engine.registry.nameOf action = e.qualified := by
      simp [Registry.nameOf, hentry]
    refine ⟨action, e, hentry, hkind, hname.trans hqualified, fun hdeep => ?_⟩
    rw [if_neg hdeep.ne'] at hadmits
    exact ⟨hentry, hkind, hadmits, Registry.perform_of_entry hentry r.input⟩

end Run.InUse

def Registry.bell : Registry Unit :=
  let op := (Operation.action "ring").takes ["note"]
  let concept : Concept Unit := ⟨"Bell", [op], fun _ _ => pure [], fun _ _ => pure []⟩
  ⟨[⟨concept, op, "Bell.ring"⟩], [concept]⟩

def RuleDefinition.resounds : RuleDefinition Unit where
  name := "Resounds"
  build registry := do
    let note ← Builder.var "note"
    let ring ← Builder.ofExcept (registry.action "Bell" "ring")
    let p := (Pattern.of ring).withInput "note" (.var note)
    pure { whenPatterns := [p], thenPatterns := [p] }

def Engine.bell : Engine Unit :=
  let p := (Pattern.of ⟨0⟩).withInput "note" (.var ⟨1⟩)
  ⟨.bell, [⟨"Resounds", ⟨[("note", ⟨1⟩)]⟩, { whenPatterns := [p], thenPatterns := [p] }⟩],
    { maxDepth := 2, cycleGuard := false }⟩

/-- A bell that rings three times in one run: from outside with a field that is not declared, and
then twice without it. -/
theorem bell_within_declarations :
    Engine.build .bell [.resounds] Engine.bell.config = .ok .bell ∧
      ∃ l, Run.InUse .bell l ∧ l.progress.records.length = 3 ∧
        ∀ r ∈ l.progress.records, ∃ action e, Registry.bell.entry? action = some e ∧
          e.operation.kind = .action ∧ r.action = e.qualified ∧
          (0 < r.depth → Registry.bell.Takes action r.input e) := by
  have hbuild : Engine.build .bell [.resounds] Engine.bell.config = .ok .bell := rfl
  let rung : Payload := [("by", .string "ann"), ("note", .string "ding")]
  let opened : Progress Unit RecordStore := Run.start ⟨(), .empty, 0⟩ none
  have hopened : Run.InUse .bell ⟨[], opened⟩ := .start (by simp [RecordStore.empty])
  have hended : ((Run.opening .bell ⟨0⟩ rung opened).bind fun l =>
      (l.run .bell 10).map fun ended => ended.2.records.length) = some 3 := by
    decide +kernel
  obtain ⟨l, hopening, hended⟩ := Option.bind_eq_some_iff.mp hended
  obtain ⟨ended, hrun, hlength⟩ := Option.map_eq_some_iff.mp hended
  have used := hopened.invoked ⟨0⟩ rung
  rw [Run.invoke_of_opening hopening, (Loop.of_run hrun).1] at used
  exact ⟨hbuild, _, used, hlength, (used.within_declarations hbuild).2.2⟩

end ConceptSync
