import ConceptSync.Proofs.Engine.FirstFiring
import ConceptSync.Proofs.Engine.Following
import ConceptSync.Proofs.Engine.Upholding

set_option autoImplicit false
set_option relaxedAutoImplicit false

/-!
What a run can still lead to, told by the names of actions. If the completions of some names lead to
invocations of these names alone, then work that begins with them stays with them.
-/

namespace ConceptSync

variable {σ : Type} {adm : Admission} {engine : Engine σ} {names : List String}

/-- Work that leads to actions of these names at most: it is of such an action, or it evaluates a
rule that invokes such actions or is left no frame. -/
def Work.LeadsTo (registry : Registry σ) (names : List String) : Work σ → Prop
  | .complete action _ => registry.nameOf action ∈ names
  | .evaluate rule frames _ =>
    (∀ world, (refine rule frames world).1 = .frames []) ∨
      ∀ p ∈ rule.clauses.thenPatterns, registry.nameOf p.action ∈ names
  | .invoke _ action _ _ => registry.nameOf action ∈ names

theorem Work.LeadsTo.mono {registry : Registry σ} {others : List String} {work : Work σ}
    (h : work.LeadsTo registry names) (hsub : names ⊆ others) : work.LeadsTo registry others := by
  cases work with
  | complete action record => exact hsub h
  | evaluate rule frames trigger => exact h.imp_right fun hthen p hp => hsub (hthen p hp)
  | invoke rule action input trigger => exact hsub h

def Engine.Stays (adm : Admission) (names : List String) (engine : Engine σ) : Prop :=
  ∀ rule ∈ engine.rules,
    (∃ p ∈ rule.clauses.whenPatterns, engine.registry.nameOf p.action ∈ names) →
    (∀ p ∈ rule.clauses.whenPatterns, ∃ f, p.Makes adm.completion f) →
    ∀ p ∈ rule.clauses.thenPatterns, engine.registry.nameOf p.action ∈ names

/-- A completion matches a pattern of a rule that it fires, and admitted completions fill all of
them. -/
theorem Run.Made.of_firing {run : Run σ} (h : run.Made adm engine) {action : ActionId}
    {record : Record} (hadm : adm.completion action record.input record.output) {rule : Rule σ}
    {frames : List Frame}
    (hfiring : (rule, frames) ∈ run.firings action record engine.rules) :
    rule ∈ engine.rules ∧
      (∃ p ∈ rule.clauses.whenPatterns, ∃ f, p.unify? action record.input record.output = some f) ∧
      ∀ p ∈ rule.clauses.whenPatterns, ∃ f, p.Makes adm.completion f := by
  obtain ⟨hrule, hmatches⟩ := Run.pattern_of_firing hfiring
  refine ⟨hrule, hmatches, fun p hp => ?_⟩
  obtain ⟨hmem, hnonempty⟩ := List.mem_filter.mp hfiring
  obtain ⟨k, hk, heq⟩ := List.mem_mapIdx.mp hmem
  cases heq
  cases hjoined : (run.offered action record k engine.rules[k]).1 with
  | nil => simp [hjoined] at hnonempty
  | cons j rest =>
    obtain ⟨f, hmakes, _⟩ := (h.offered hadm (List.getElem?_eq_getElem hk)).1 j
      (by rw [hjoined]; exact List.mem_cons_self ..) p hp
    exact ⟨f, hmakes⟩

theorem Run.Made.offered_of_single {run : Run σ} (h : run.Made adm engine) {k : Nat} {rule : Rule σ}
    (hrule : engine.rules[k]? = some rule) {p : Pattern} (hpattern : rule.clauses.whenPatterns = [p])
    {action : ActionId} {record : Record} {f : Frame}
    (hunify : p.unify? action record.input record.output = some f) :
    (run.offered action record k rule).1.map Joined.frame = [f] := by
  refine offered_of_slot ?_ hpattern hunify
  have hslots := (h k rule hrule).length_eq
  rw [hpattern] at hslots
  exact hslots.symm

theorem leadsTo_step (hstays : engine.Stays adm names) {p : Progress σ RecordStore}
    (hmade : p.run.Made adm engine) {work : Work σ} (hadm : work.Confined adm)
    (hwork : work.LeadsTo engine.registry names) :
    ∀ next, (step engine work p).1 = .ok next → ∀ w ∈ next, w.LeadsTo engine.registry names := by
  intro next hnext w hw
  cases work with
  | complete action record =>
    by_cases hseen : record.id ∈ p.run.seen
    · simp only [step, completeRecord_of_seen action hseen] at hnext
      cases hnext
      cases hw
    · simp only [step, completeRecord_of_unseen action hseen] at hnext
      cases hnext
      obtain ⟨⟨rule, frames⟩, hfiring, rfl⟩ := List.mem_map.mp hw
      obtain ⟨hrule, ⟨q, hq, f, hunify⟩, hfilled⟩ := hmade.of_firing hadm hfiring
      obtain ⟨rfl, _⟩ := Pattern.unify?_sound hunify
      exact .inr (hstays rule hrule ⟨q, hq, hwork⟩ hfilled)
  | evaluate rule frames trigger =>
    obtain ⟨left, world, hrefine, f, hf, i, hi, rfl⟩ := evaluate_step (Prod.ext hnext rfl) w hw
    rcases hwork with hdropped | hthen
    · have hnone := hdropped p.stage.world
      rw [hrefine] at hnone
      cases hnone
      cases hf
    · obtain ⟨q, hq, haction, _⟩ := Rule.mem_invocations hi
      have hname := hthen q hq
      rw [← haction] at hname
      exact hname
  | invoke rule action input trigger =>
    obtain ⟨record, rfl⟩ := invoke_step hnext w hw
    exact hwork

/-- The loop of a run whose queued work leads to these names alone. -/
structure Loop.Leads (adm : Admission) (names : List String) (engine : Engine σ)
    (l : Loop σ RecordStore) : Prop where
  course : ∃ ms, Run.Course engine False ms l
  upheld : l.Upheld adm engine
  queued : ∀ w ∈ l.stack, w.LeadsTo engine.registry names

namespace Loop.Leads

variable {l l' : Loop σ RecordStore}

private theorem turn (hengine : engine.Upholds adm) (hstays : engine.Stays adm names)
    (h : l.Leads adm names engine) (hturn : l.turn engine = .inl l') :
    l'.Leads adm names engine := by
  obtain ⟨ms, hcourse⟩ := h.course
  obtain ⟨work, rest, next, hstack, _, hstep, hstack'⟩ := Loop.turn_cases hturn
  obtain ⟨htop, hrest⟩ := List.forall_mem_cons.mp (hstack ▸ h.queued)
  have hnext := leadsTo_step hstays h.upheld.made
    (h.upheld.queued work (by simp [hstack])) htop next (by rw [hstep])
  refine ⟨⟨_, hcourse.turn hturn⟩, h.upheld.turn hengine hturn, fun w hw => ?_⟩
  rw [hstack'] at hw
  rcases List.mem_append.mp hw with hnew | hold
  · exact hnext w hnew
  · exact hrest w hold

private theorem reaches (hengine : engine.Upholds adm) (hstays : engine.Stays adm names)
    (h : l.Leads adm names engine) (hreach : Loop.Reaches engine l l') :
    l'.Leads adm names engine := by
  induction hreach with
  | refl => exact h
  | tail _ hturn ih => exact ih.turn hengine hstays hturn

/-- Nothing but actions of these names is performed. -/
theorem performed (hengine : engine.Upholds adm) (hstays : engine.Stays adm names)
    (h : l.Leads adm names engine) {action : ActionId} {input : Payload} {world : σ}
    (hcall : .performed action input world ∈ l.activities engine) :
    engine.registry.nameOf action ∈ names := by
  obtain ⟨l', rule, trigger, hreach, hqueued, _⟩ := Loop.invoke_of_performed hcall
  exact (h.reaches hengine hstays hreach).queued _ hqueued

theorem records_drain (hengine : engine.Upholds adm) (hstays : engine.Stays adm names)
    (h : l.Leads adm names engine) :
    ∃ more, (drain engine l.stack l.progress).2.records = l.progress.records ++ more ∧
      ∀ r ∈ more, r.action ∈ names := by
  refine Loop.drain_of_kept engine
    (I := fun l' => l'.Leads adm names engine ∧ ∃ more,
      l'.progress.records = l.progress.records ++ more ∧ ∀ r ∈ more, r.action ∈ names)
    (P := fun q => ∃ more, q.records = l.progress.records ++ more ∧ ∀ r ∈ more, r.action ∈ names)
    ?_ ?_ ⟨h, [], (List.append_nil _).symm, nofun⟩
  · rintro l₁ l₂ ⟨hleads, more, hrecords, hmore⟩ hturn
    refine ⟨hleads.turn hengine hstays hturn, ?_⟩
    obtain ⟨ms, hcourse⟩ := hleads.course
    obtain ⟨work, rest, hstack, _, ⟨hsame, _⟩ | ⟨_, action, _, _, child, rfl, _, hkept⟩⟩ :=
      hcourse.records_turn hturn
    · exact ⟨more, hsame.trans hrecords, hmore⟩
    · refine ⟨more ++ [child], by rw [hkept.records, hrecords, List.append_assoc], fun r hr => ?_⟩
      rcases List.mem_append.mp hr with hold | hnew
      · exact hmore r hold
      · obtain rfl := List.mem_singleton.mp hnew
        rw [hkept.action]
        exact hleads.queued _ (by rw [hstack]; exact List.mem_cons_self ..)
  · rintro l₁ ⟨result, q⟩ ⟨hleads, more, hrecords, hmore⟩ hturn
    obtain ⟨ms, hcourse⟩ := hleads.course
    exact ⟨more, (hcourse.records_ended hturn).trans hrecords, hmore⟩

end Loop.Leads

end ConceptSync
