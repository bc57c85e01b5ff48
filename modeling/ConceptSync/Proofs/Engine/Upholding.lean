import ConceptSync.Proofs.Engine.Provenance
import ConceptSync.Proofs.Join.Made

set_option autoImplicit false
set_option relaxedAutoImplicit false

/-!
Provenance through joins. An engine upholds an admission if each rule makes admitted invocations of
the frames that admitted completions of its patterns join; then everything that a run performs is
admitted, however many completions its rules wait for.
-/

namespace ConceptSync

variable {σ : Type} {adm : Admission} {engine : Engine σ}

structure Engine.Upholds (adm : Admission) (engine : Engine σ) : Prop where
  rules : ∀ rule ∈ engine.rules, ∀ frames : List Frame,
    (∀ f ∈ frames, f.JoinedOf adm.completion rule.clauses.whenPatterns) →
      rule.FiresAdmitted adm frames
  actions : ∀ action input, adm.invocation action input → ∀ world output world',
    engine.registry.perform action input world = (.ok output, world') →
      adm.completion action input output

/-- The frames that pend were made of admitted completions. -/
def Run.Made (adm : Admission) (engine : Engine σ) (run : Run σ) : Prop :=
  ∀ k rule, engine.rules[k]? = some rule →
    (run.joinState k rule).MadeBy adm.completion rule.clauses.whenPatterns

theorem Run.made_of_no_joins {run : Run σ} (h : run.joins = []) : run.Made adm engine := by
  intro k rule _
  simp only [joinState, h]
  exact .empty _

theorem Run.Made.offered {run : Run σ} (h : run.Made adm engine) {action : ActionId}
    {record : Record} (hadm : adm.completion action record.input record.output) {k : Nat}
    {rule : Rule σ} (hrule : engine.rules[k]? = some rule) :
    (∀ j ∈ (run.offered action record k rule).1,
        j.frame.JoinedOf adm.completion rule.clauses.whenPatterns) ∧
      (run.offered action record k rule).2.MadeBy adm.completion rule.clauses.whenPatterns :=
  (h k rule hrule).offered hadm fun i q hq => by simpa using hq

private theorem Run.Made.firings (hengine : engine.Upholds adm) {run : Run σ}
    (h : run.Made adm engine) {action : ActionId} {record : Record}
    (hadm : adm.completion action record.input record.output) :
    ∀ firing ∈ run.firings action record engine.rules, firing.1.FiresAdmitted adm firing.2 := by
  intro firing hfiring
  obtain ⟨hfiring, _⟩ := List.mem_filter.mp hfiring
  obtain ⟨k, hk, rfl⟩ := List.mem_mapIdx.mp hfiring
  refine hengine.rules _ (List.getElem_mem hk) _ fun f hf => ?_
  obtain ⟨j, hj, rfl⟩ := List.mem_map.mp hf
  exact (h.offered hadm (List.getElem?_eq_getElem hk)).1 j hj

/-- A loop all of whose queued work and pending frames come from admitted completions. -/
structure Loop.Upheld (adm : Admission) (engine : Engine σ) (l : Loop σ RecordStore) : Prop where
  made : l.progress.run.Made adm engine
  queued : ∀ w ∈ l.stack, w.Confined adm

namespace Loop.Upheld

variable {l l' : Loop σ RecordStore}

theorem turn (hengine : engine.Upholds adm) (h : l.Upheld adm engine)
    (hturn : l.turn engine = .inl l') : l'.Upheld adm engine := by
  obtain ⟨work, rest, next, hstack, _, hstep, hstack'⟩ := Loop.turn_cases hturn
  have hwork := h.queued work (by simp [hstack])
  constructor
  · have hmade := joinState_step
      (P := fun rule state => state.MadeBy adm.completion rule.clauses.whenPatterns) work h.made
      fun action record heq k rule hrule => (h.made.offered (by subst heq; exact hwork) hrule).2
    rw [hstep] at hmade
    exact hmade
  · intro w hw
    rw [hstack'] at hw
    rcases List.mem_append.mp hw with hnew | hold
    · exact confined_step (fun _ _ => h.made.firings hengine) hengine.actions hwork next
        (by rw [hstep]) w hnew
    · exact h.queued w (by simp [hstack, hold])

theorem opening {action : ActionId} {record : Record} (hjoins : l.progress.run.joins = [])
    (hstack : l.stack = [.complete action record])
    (hadm : adm.completion action record.input record.output) : l.Upheld adm engine := by
  refine ⟨Run.made_of_no_joins hjoins, fun w hw => ?_⟩
  rw [hstack] at hw
  obtain rfl := List.mem_singleton.mp hw
  exact hadm

end Loop.Upheld

end ConceptSync
