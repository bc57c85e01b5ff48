import ConceptSync.Proofs.Engine.Life
import ConceptSync.Proofs.Join.Offer

set_option autoImplicit false
set_option relaxedAutoImplicit false

/-!
Where the actions of a run come from. If each rule makes only admitted invocations of admitted
completions, and performing an admitted invocation gives an admitted completion, then everything
that a cascade performs is admitted. The condition looks at one rule at a time.
-/

namespace ConceptSync

variable {σ : Type}

/-- Which completions a run may process and which invocations it may make. -/
structure Admission where
  completion : ActionId → Payload → Payload → Prop
  invocation : ActionId → Payload → Prop

def Rule.MakesAdmitted (adm : Admission) (rule : Rule σ) (f : Frame) : Prop :=
  ∀ i ∈ rule.invocations f, adm.invocation i.1 i.2

def Rule.FiresAdmitted (adm : Admission) (rule : Rule σ) (frames : List Frame) : Prop :=
  ∀ world left world', refine rule frames world = (.frames left, world') →
    ∀ f ∈ left, rule.MakesAdmitted adm f

/-- A rule that makes admitted invocations only: in every frame, or in the frames that admitted
completions of its one pattern make, or never because no admitted completion matches it. -/
inductive Rule.Confined (adm : Admission) (rule : Rule σ) : Prop
  | always : (∀ f, rule.MakesAdmitted adm f) → Confined adm rule
  | single (p : Pattern) : rule.clauses.whenPatterns = [p] →
      (∀ action input output f, adm.completion action input output →
        p.unify? action input output = some f → rule.FiresAdmitted adm [f]) → Confined adm rule
  | never : (∀ p ∈ rule.clauses.whenPatterns, ∀ action input output,
      adm.completion action input output → p.unify? action input output = none) →
      Confined adm rule

/-- An engine whose rules are confined and whose actions complete admitted invocations with
admitted completions. -/
structure Engine.Confined (adm : Admission) (engine : Engine σ) : Prop where
  rules : ∀ rule ∈ engine.rules, rule.Confined adm
  actions : ∀ action input, adm.invocation action input → ∀ world output world',
    engine.registry.perform action input world = (.ok output, world') →
      adm.completion action input output

def Work.Confined (adm : Admission) : Work σ → Prop
  | .complete action record => adm.completion action record.input record.output
  | .evaluate rule frames _ => rule.FiresAdmitted adm frames
  | .invoke _ action input _ => adm.invocation action input

def Run.Slotted (engine : Engine σ) (run : Run σ) : Prop :=
  ∀ k rule, engine.rules[k]? = some rule →
    (run.joinState k rule).slots.length = rule.clauses.whenPatterns.length

theorem Run.slotted_of_no_joins {engine : Engine σ} {run : Run σ} (h : run.joins = []) :
    run.Slotted engine := by
  intro k rule _
  simp [joinState, h, JoinState.empty]

theorem joinState_step {π : Type} [RecordKeeper π] {engine : Engine σ} {p : Progress σ π}
    {P : Rule σ → JoinState → Prop} (work : Work σ)
    (h : ∀ k rule, engine.rules[k]? = some rule → P rule (p.run.joinState k rule))
    (hoffered : ∀ action record, work = .complete action record → ∀ k rule,
      engine.rules[k]? = some rule → P rule (p.run.offered action record k rule).2) :
    ∀ k rule, engine.rules[k]? = some rule →
      P rule ((step engine work p).2.run.joinState k rule) := by
  intro k rule hrule
  by_cases hnew : ∃ action record, work = .complete action record ∧ record.id ∉ p.run.seen
  · obtain ⟨action, record, rfl, hunseen⟩ := hnew
    have hstep : completeRecord engine action record p.run = _ :=
      completeRecord_of_unseen action hunseen
    simp only [ConceptSync.step, hstep]
    change P rule ((p.run.matched action record engine.rules).joinState k rule)
    rw [Run.joinState_matched action record hrule]
    exact hoffered action record rfl k rule hrule
  · have hseen : ∀ action record, work = .complete action record → record.id ∈ p.run.seen := by
      intro action record hwork
      by_contra hunseen
      exact hnew ⟨action, record, hwork, hunseen⟩
    simp only [Run.joinState, (joins_step engine hseen).1]
    exact h k rule hrule

private theorem Run.Slotted.step {engine : Engine σ} {p : Progress σ RecordStore}
    (h : p.run.Slotted engine) (work : Work σ) : (step engine work p).2.run.Slotted engine :=
  joinState_step (P := fun rule state => state.slots.length = rule.clauses.whenPatterns.length)
    work h fun _ _ _ k rule hrule => (length_slots_offerSlots _ _ _).trans (h k rule hrule)

private theorem firesAdmitted_of_confined {adm : Admission} {engine : Engine σ} {run : Run σ}
    {action : ActionId} {record : Record} (hrules : ∀ rule ∈ engine.rules, rule.Confined adm)
    (hslots : run.Slotted engine) (hadm : adm.completion action record.input record.output) :
    ∀ firing ∈ run.firings action record engine.rules, firing.1.FiresAdmitted adm firing.2 := by
  intro firing hfiring
  obtain ⟨hfiring, hnonempty⟩ := List.mem_filter.mp hfiring
  obtain ⟨k, hk, rfl⟩ := List.mem_mapIdx.mp hfiring
  have hrule : engine.rules[k]? = some engine.rules[k] := List.getElem?_eq_getElem hk
  cases hrules _ (List.getElem_mem hk) with
  | always hmakes => exact fun _ _ _ _ f _ => hmakes f
  | single p hpatterns hfires =>
    have hlength := hslots k _ hrule
    rw [hpatterns] at hlength
    cases hunify : p.unify? action record.input record.output with
    | none =>
      simp [Run.offered, hpatterns, offerSlots_cons, hunify, offerSlots] at hnonempty
    | some f =>
      simp only [Run.offered, hpatterns, offerSlots_of_single hlength hunify, List.map_cons,
        List.map_nil]
      exact hfires action record.input record.output f hadm hunify
  | never hnone =>
    have hnomatch : ∀ p ∈ engine.rules[k].clauses.whenPatterns,
        p.unify? action record.input record.output = none := fun p hp => hnone p hp _ _ _ hadm
    simp [Run.offered, offerSlots_of_no_match hnomatch] at hnonempty

theorem confined_step {adm : Admission} {engine : Engine σ} {p : Progress σ RecordStore}
    (hfires : ∀ action record, adm.completion action record.input record.output →
      ∀ firing ∈ p.run.firings action record engine.rules, firing.1.FiresAdmitted adm firing.2)
    (hactions : ∀ action input, adm.invocation action input → ∀ world output world',
      engine.registry.perform action input world = (.ok output, world') →
        adm.completion action input output) {work : Work σ} (hwork : work.Confined adm) :
    ∀ next, (step engine work p).1 = .ok next → ∀ w ∈ next, w.Confined adm := by
  intro next hnext w hw
  cases work with
  | complete action record =>
    by_cases hseen : record.id ∈ p.run.seen
    · simp only [step, completeRecord_of_seen action hseen] at hnext
      cases hnext
      cases hw
    · simp only [step, completeRecord_of_unseen action hseen] at hnext
      cases hnext
      obtain ⟨firing, hfiring, rfl⟩ := List.mem_map.mp hw
      exact hfires action record hwork firing hfiring
  | evaluate rule frames trigger =>
    obtain ⟨left, world, hrefine, f, hf, i, hi, rfl⟩ := evaluate_step (Prod.ext hnext rfl) w hw
    exact hwork _ left world hrefine f hf i hi
  | invoke rule action input trigger =>
    rcases keeper_step engine (.invoke rule action input trigger) p with ⟨_, hsame⟩ |
      ⟨_, _, _, _, output, world, draft, hinvoke, hperform, rfl, _, _, hkept⟩
    · obtain ⟨record, rfl⟩ := invoke_step hnext w hw
      exact absurd rfl ((hsame next hnext _ hw).2 action record)
    · cases hinvoke
      obtain ⟨record, hkeep, rfl⟩ := hkept next hnext
      obtain rfl := List.mem_singleton.mp hw
      obtain ⟨_, hkeeps, _⟩ :=
        RecordStore.appendChild_ok (RecordStore.appendChild_of_persistChild hkeep)
      have hcompletion := hactions action input hwork _ output world hperform
      simp only [Work.Confined]
      rw [hkeeps.input, hkeeps.output]
      exact hcompletion

structure Loop.Confined (adm : Admission) (engine : Engine σ) (l : Loop σ RecordStore) : Prop where
  slots : l.progress.run.Slotted engine
  queued : ∀ w ∈ l.stack, w.Confined adm

namespace Loop.Confined

variable {adm : Admission} {engine : Engine σ} {l l' : Loop σ RecordStore}

private theorem turn (hengine : engine.Confined adm) (h : l.Confined adm engine)
    (hturn : l.turn engine = .inl l') : l'.Confined adm engine := by
  obtain ⟨work, rest, next, hstack, _, hstep, hstack'⟩ := Loop.turn_cases hturn
  constructor
  · have hslots := h.slots.step work
    rw [hstep] at hslots
    exact hslots
  · intro w hw
    rw [hstack'] at hw
    rcases List.mem_append.mp hw with hnew | hold
    · have hwork := h.queued work (by simp [hstack])
      exact confined_step (fun _ _ => firesAdmitted_of_confined hengine.rules h.slots)
        hengine.actions hwork next (by rw [hstep]) w hnew
    · exact h.queued w (by simp [hstack, hold])

private theorem reaches (hengine : engine.Confined adm) (h : l.Confined adm engine)
    (hreach : Loop.Reaches engine l l') : l'.Confined adm engine := by
  induction hreach with
  | refl => exact h
  | tail _ hturn ih => exact ih.turn hengine hturn

theorem performed (hengine : engine.Confined adm) (h : l.Confined adm engine) {action : ActionId}
    {input : Payload} {world : σ}
    (hperformed : .performed action input world ∈ l.activities engine) :
    adm.invocation action input := by
  obtain ⟨l', rule, trigger, hreach, hqueued, _⟩ := Loop.invoke_of_performed hperformed
  exact (h.reaches hengine hreach).queued _ hqueued

theorem opening {action : ActionId} {input : Payload} {p : Progress σ RecordStore}
    (hjoins : p.run.joins = []) (hopening : Run.opening engine action input p = some l)
    (hadm : ∀ output, adm.completion action input output) : l.Confined adm engine := by
  obtain ⟨record, output, hstack, hrun, hkeep, _⟩ := Run.opening_cases hopening
  obtain ⟨_, hkeeps, _⟩ :=
    RecordStore.append_ok (congrArg Prod.fst (RecordStore.append_of_persist hkeep))
  constructor
  · exact Run.slotted_of_no_joins (hrun ▸ hjoins)
  · intro w hw
    rw [hstack] at hw
    obtain rfl := List.mem_singleton.mp hw
    simp only [Work.Confined, hkeeps.input]
    exact hadm record.output

end Loop.Confined

end ConceptSync
