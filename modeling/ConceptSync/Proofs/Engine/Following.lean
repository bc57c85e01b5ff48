import ConceptSync.Proofs.Engine.Forest
import ConceptSync.Proofs.Engine.Provenance
import ConceptSync.Proofs.Frame.Templates
import ConceptSync.Proofs.Registry
import ConceptSync.Proofs.Store.Identifiers

set_option autoImplicit false
set_option relaxedAutoImplicit false

/-!
What follows from what. Queued work follows from the completion that it belongs to, and every
completion below the first ones from its cause: some rule waits for the one action and invokes the
other.
-/

namespace ConceptSync

variable {σ : Type}

def Engine.Links (engine : Engine σ) (cause effect : String) : Prop :=
  ∃ rule ∈ engine.rules,
    (∃ p ∈ rule.clauses.whenPatterns, engine.registry.nameOf p.action = cause) ∧
      ∃ p ∈ rule.clauses.thenPatterns, engine.registry.nameOf p.action = effect

def Work.Follows (engine : Engine σ) : Work σ → Prop
  | .complete action record => engine.registry.nameOf action = record.action
  | .evaluate rule _ trigger => rule ∈ engine.rules ∧
      ∃ p ∈ rule.clauses.whenPatterns, engine.registry.nameOf p.action = trigger.action
  | .invoke _ action _ trigger => engine.Links trigger.action (engine.registry.nameOf action)

/-- A rule fires because a completion matches one of its patterns. -/
theorem Run.pattern_of_firing {run : Run σ} {action : ActionId} {record : Record}
    {rules : List (Rule σ)} {rule : Rule σ} {frames : List Frame}
    (h : (rule, frames) ∈ run.firings action record rules) :
    rule ∈ rules ∧ ∃ p ∈ rule.clauses.whenPatterns, ∃ f,
      p.unify? action record.input record.output = some f := by
  obtain ⟨hmem, hnonempty⟩ := List.mem_filter.mp h
  obtain ⟨k, hk, heq⟩ := List.mem_mapIdx.mp hmem
  cases heq
  refine ⟨List.getElem_mem hk, ?_⟩
  by_contra hnone
  have hnomatch : ∀ p ∈ rules[k].clauses.whenPatterns,
      p.unify? action record.input record.output = none := by
    intro p hp
    cases hunify : p.unify? action record.input record.output with
    | none => rfl
    | some f => exact absurd ⟨p, hp, f, hunify⟩ hnone
  simp [Run.offered, offerSlots_of_no_match hnomatch] at hnonempty

private theorem follows_step {engine : Engine σ} {p : Progress σ RecordStore} {work : Work σ}
    (hstore : p.stage.store.Reachable) (hrecord : work.record ∈ p.records)
    (hwork : work.Follows engine) :
    ∀ next, (step engine work p).1 = .ok next → ∀ w ∈ next, w.Follows engine := by
  intro next hnext w hw
  cases work with
  | complete action record =>
    by_cases hseen : record.id ∈ p.run.seen
    · simp only [step, completeRecord_of_seen action hseen] at hnext
      cases hnext
      cases hw
    · simp only [step, completeRecord_of_unseen action hseen] at hnext
      cases hnext
      obtain ⟨firing, hfiring, rfl⟩ := List.mem_map.mp hw
      obtain ⟨hrule, q, hq, f, hunify⟩ := Run.pattern_of_firing hfiring
      obtain ⟨rfl, _⟩ := Pattern.unify?_sound hunify
      exact ⟨hrule, q, hq, hwork⟩
  | evaluate rule frames trigger =>
    obtain ⟨left, world, hrefine, f, hf, i, hi, rfl⟩ := evaluate_step (Prod.ext hnext rfl) w hw
    obtain ⟨q, hq, haction, _⟩ := Rule.mem_invocations hi
    exact ⟨rule, hwork.1, hwork.2, q, hq, congrArg engine.registry.nameOf haction.symm⟩
  | invoke rule action input trigger =>
    have htrigger : trigger ∈ p.records := hrecord
    have hdispatched := Progress.dispatched engine rule action input hstore htrigger
    generalize step engine (.invoke rule action input trigger) p = stepped at hdispatched hnext
    cases hdispatched with
    | refused _ _ =>
      cases hnext
      cases hw
    | failed _ _ _ _ =>
      cases hnext
      cases hw
    | broken _ _ _ => cases hnext
    | kept hkept =>
      cases hnext
      obtain rfl := List.mem_singleton.mp hw
      exact hkept.action.symm

theorem Matched.slotted {engine : Engine σ} {ms : List (Matching σ)} {run : Run σ}
    (h : Matched engine.rules ms run) : run.Slotted engine := by
  induction h with
  | fresh hjoins _ => exact Run.slotted_of_no_joins hjoins
  | @matching _ m run _ _ hjoins _ ih =>
    intro k rule hrule
    have hsame : run.joinState k rule =
        (m.run.matched m.action m.record engine.rules).joinState k rule := by
      simp only [Run.joinState, hjoins]
    rw [hsame, Run.joinState_matched _ _ hrule]
    exact (length_slots_offerSlots _ _ _).trans (ih k rule hrule)

namespace Run.Course

variable {engine : Engine σ} {redelivers : Prop} {ms : List (Matching σ)} {l : Loop σ RecordStore}

theorem follows (h : Course engine redelivers ms l) : ∀ w ∈ l.stack, w.Follows engine := by
  induction h with
  | start _ _ => simp
  | elsewhere _ _ _ _ ih => exact ih
  | invoke action input before hopening _ =>
    obtain ⟨root, hopened⟩ := opened before.reachable hopening
    intro w hw
    rw [hopened.stack] at hw
    obtain rfl := List.mem_singleton.mp hw
    exact hopened.action.symm
  | deliver _ _ _ hdelivery _ =>
    intro w hw
    unfold redelivery at hdelivery
    split at hdelivery
    · cases hdelivery
    · obtain ⟨action, hlookup, rfl⟩ := Option.map_eq_some_iff.mp hdelivery
      obtain rfl := List.mem_singleton.mp hw
      exact Registry.nameOf_of_lookup hlookup
  | turn before hturn ih =>
    obtain ⟨work, rest, next, hstack, _, hstep, hstack'⟩ := Loop.turn_cases hturn
    obtain ⟨htop, hrest⟩ := List.forall_mem_cons.mp (hstack ▸ ih)
    have hnext := follows_step before.reachable (before.queued work (by simp [hstack])) htop next
      (by rw [hstep])
    intro w hw
    rw [hstack'] at hw
    exact (List.mem_append.mp hw).elim (hnext w) (hrest w)
  | ended _ _ _ => simp

private theorem caused_append {records : List Record} (new : List Record) {r : Record}
    (h : r.IsRoot ∨ ∃ cause ∈ records, r.ChildOf cause ∧ engine.Links cause.action r.action) :
    r.IsRoot ∨
      ∃ cause ∈ records ++ new, r.ChildOf cause ∧ engine.Links cause.action r.action := by
  rcases h with hroot | ⟨cause, hcause, hlink⟩
  · exact .inl hroot
  · exact .inr ⟨cause, List.mem_append_left _ hcause, hlink⟩

theorem links (h : Course engine redelivers ms l) :
    ∀ r ∈ l.progress.records, r.IsRoot ∨
      ∃ cause ∈ l.progress.records, r.ChildOf cause ∧ engine.Links cause.action r.action := by
  induction h with
  | start _ hfresh => simp [records_start hfresh]
  | elsewhere _ _ _ helsewhere ih =>
    rw [Progress.records, RecordStore.readRun_after helsewhere]
    exact ih
  | invoke _ _ before hopening ih =>
    obtain ⟨root, hopened⟩ := opened before.reachable hopening
    intro r hr
    rw [hopened.records] at hr ⊢
    rcases List.mem_append.mp hr with hold | hnew
    · exact caused_append _ (ih r hold)
    · exact .inl (List.mem_singleton.mp hnew ▸ hopened.isRoot)
  | deliver _ _ _ hdelivery ih =>
    obtain ⟨_, rfl⟩ := redelivery_cases hdelivery
    exact ih
  | turn before hturn ih =>
    obtain ⟨work, rest, hstack, hwork, ⟨hrecords, _⟩ | ⟨_, _, _, trigger, child, rfl, _, hkept⟩⟩ :=
      before.records_turn hturn
    · exact hrecords ▸ ih
    · have hfollows := before.follows _ (by rw [hstack]; exact List.mem_cons_self ..)
      intro r hr
      rw [hkept.records] at hr ⊢
      rcases List.mem_append.mp hr with hold | hnew
      · exact caused_append _ (ih r hold)
      · obtain rfl := List.mem_singleton.mp hnew
        exact .inr ⟨trigger, List.mem_append_left _ hwork, hkept.childOf, hkept.action ▸ hfollows⟩
  | ended before hturn ih => exact before.records_ended hturn ▸ ih

theorem links_of_causes (h : Course engine redelivers ms l) {a r : Record}
    (hcauses : Causes l.progress.records a r) :
    ∃ cause, engine.Links cause.action r.action ∧
      (a = cause ∨ Causes l.progress.records a cause) := by
  obtain ⟨c, hc, hparent, hbefore⟩ : ∃ c ∈ l.progress.records, r.parent = some c.seq ∧
      (a = c ∨ Causes l.progress.records a c) := by
    cases hcauses with
    | single hstep => exact ⟨a, hstep.1, hstep.2.2, .inl rfl⟩
    | @tail c _ hbefore hstep => exact ⟨c, hstep.1, hstep.2.2, .inr hbefore⟩
  rcases h.links r hcauses.right_mem with hroot | ⟨cause, hcause, hchild, hlink⟩
  · rw [hroot.parent] at hparent
    cases hparent
  · obtain rfl := h.grown.eq_of_seq hc hcause (Option.some.inj (hparent.symm.trans hchild.parent))
    exact ⟨c, hlink, hbefore⟩

theorem mem_records_of_matching (h : Course engine redelivers ms l) :
    ∀ m ∈ ms, m.record ∈ l.progress.records := by
  induction h with
  | start _ _ => simp
  | elsewhere _ _ _ helsewhere ih =>
    rw [Progress.records, RecordStore.readRun_after helsewhere]
    exact ih
  | invoke _ _ before hopening ih =>
    obtain ⟨_, hopened⟩ := opened before.reachable hopening
    exact fun m hm => hopened.records ▸ List.mem_append_left _ (ih m hm)
  | deliver _ _ _ hdelivery ih =>
    obtain ⟨_, rfl⟩ := redelivery_cases hdelivery
    exact ih
  | @turn ms l l' before hturn ih =>
    have hkept : ∀ r ∈ l.progress.records, r ∈ l'.progress.records := by
      intro r hr
      obtain ⟨_, _, _, _, ⟨hsame, _⟩ | ⟨_, _, _, _, _, _, _, hkept⟩⟩ := before.records_turn hturn
      · exact hsame.symm ▸ hr
      · exact hkept.records ▸ List.mem_append_left _ hr
    intro m hm
    rcases List.mem_append.mp hm with hold | hnew
    · exact hkept _ (ih m hold)
    · obtain ⟨⟨work, p⟩, hnext, hmatching⟩ :=
        Option.bind_eq_some_iff.mp (Option.mem_toList.mp hnew)
      have hrecord := before.queued work (Loop.mem_stack_of_next hnext).1
      rw [Work.record_of_matching hmatching] at hrecord
      exact hkept _ hrecord
  | ended before hturn ih => exact before.records_ended hturn ▸ ih

theorem unseen_of_kept (h : Course engine redelivers ms l) {action : ActionId} {input : Payload}
    {trigger child : Record} {q : Progress σ RecordStore}
    (hkept : Kept engine action input trigger child l.progress q)
    (hstore : q.stage.store.Reachable) (hsupply : q.stage.store.latest < Uuid.supply) :
    child.id ∉ q.run.seen := by
  rw [hkept.run, h.matched.mem_seen]
  rintro ⟨m, hm, hid⟩
  have hold := h.mem_records_of_matching m hm
  have hmem : ∀ r ∈ q.records, r ∈ q.stage.store.records :=
    fun r hr => (Progress.mem_records.mp hr).1
  have hsame : m.record = child := by
    refine List.inj_on_of_nodup_map (hstore.nodup_ids hsupply) (hmem _ ?_) (hmem _ ?_) hid
    · exact hkept.records ▸ List.mem_append_left _ hold
    · simp [hkept.records]
  exact absurd (hkept.latest _ hold) (hsame ▸ Int.lt_irrefl _)

end Run.Course

end ConceptSync
