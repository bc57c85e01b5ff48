import ConceptSync.Proofs.Engine.Handing

set_option autoImplicit false
set_option relaxedAutoImplicit false

/-!
What a run leaves alone. What holds of the world and is kept by the refinements of the engine's rules
and by the performed actions holds at the end of the run; so a part of the world that none of them
changes is the same there as at the beginning.
-/

namespace ConceptSync

variable {σ β : Type} {engine : Engine σ}

private theorem Traces.kept {P : σ → Prop} {first last : σ} {calls : List (Activity σ)}
    (h : Traces engine first calls last)
    (hkeeps : ∀ call ∈ calls, P call.before → P (call.after engine)) (hfirst : P first) :
    P last := by
  induction h with
  | nil _ => exact hfirst
  | cons _ ih =>
    obtain ⟨hcall, hrest⟩ := List.forall_mem_cons.mp hkeeps
    exact ih hrest (hcall hfirst)

private theorem Traces.kept_before {P : σ → Prop} {first last : σ} {calls : List (Activity σ)}
    (h : Traces engine first calls last)
    (hkeeps : ∀ call ∈ calls, P call.before → P (call.after engine)) (hfirst : P first) :
    ∀ call ∈ calls, P call.before := by
  induction h with
  | nil _ => nofun
  | cons _ ih =>
    obtain ⟨hcall, hrest⟩ := List.forall_mem_cons.mp hkeeps
    exact List.forall_mem_cons.mpr ⟨hfirst, ih hrest (hcall hfirst)⟩

namespace Run.Course

variable {redelivers : Prop} {ms : List (Matching σ)} {l : Loop σ RecordStore}

private theorem rule_of_refined (h : Course engine redelivers ms l) {rule : Rule σ}
    {frames : List Frame} {world : σ} (hcall : .refined rule frames world ∈ l.activities engine) :
    rule ∈ engine.rules := by
  obtain ⟨⟨work, p⟩, hdone, hcall⟩ := List.mem_flatMap.mp hcall
  obtain ⟨l', hreach, hnext⟩ := Loop.mem_history.mp hdone
  obtain ⟨hqueued, rfl⟩ := Loop.mem_stack_of_next hnext
  obtain ⟨_, hcourse⟩ := h.reaches hreach
  cases work with
  | complete _ _ => cases hcall
  | evaluate rule' frames' trigger =>
    simp only [Work.activities, Rule.refinementCall] at hcall
    split at hcall
    · cases List.mem_singleton.mp hcall
      obtain ⟨k, hk, _⟩ := hcourse.handed_of_queued hqueued
      exact List.mem_of_getElem? hk
    · cases hcall
  | invoke rule' action input trigger =>
    simp only [Work.activities] at hcall
    split at hcall
    · cases List.mem_singleton.mp hcall
    · cases hcall

private theorem kept_call (h : Course engine redelivers ms l) {P : σ → Prop}
    (hrefine : ∀ rule ∈ engine.rules, ∀ frames world,
      P world → P (refine rule frames world).2)
    (hperform : ∀ action input world, .performed action input world ∈ l.activities engine →
      P world → P (engine.registry.perform action input world).2) :
    ∀ call ∈ l.activities engine, P call.before → P (call.after engine) := by
  intro call hcall
  cases call with
  | refined rule frames world => exact hrefine rule (h.rule_of_refined hcall) frames world
  | performed action input world => exact hperform action input world hcall

private theorem kept_drain (h : Course engine redelivers ms l) {P : σ → Prop}
    (hrefine : ∀ rule ∈ engine.rules, ∀ frames world,
      P world → P (refine rule frames world).2)
    (hperform : ∀ action input world, .performed action input world ∈ l.activities engine →
      P world → P (engine.registry.perform action input world).2)
    (hbefore : P l.progress.stage.world) :
    P (drain engine l.stack l.progress).2.stage.world :=
  (l.traces_activities engine).kept (h.kept_call hrefine hperform) hbefore

theorem kept_before (h : Course engine redelivers ms l) {P : σ → Prop}
    (hrefine : ∀ rule ∈ engine.rules, ∀ frames world,
      P world → P (refine rule frames world).2)
    (hperform : ∀ action input world, .performed action input world ∈ l.activities engine →
      P world → P (engine.registry.perform action input world).2)
    (hbefore : P l.progress.stage.world) :
    ∀ call ∈ l.activities engine, P call.before :=
  (l.traces_activities engine).kept_before (h.kept_call hrefine hperform) hbefore

/-- A view that the refinements and the performed actions keep is kept by draining the stack. -/
theorem view_drain (h : Course engine redelivers ms l) (view : σ → β)
    (hrefine : ∀ rule ∈ engine.rules, ∀ frames world,
      view (refine rule frames world).2 = view world)
    (hperform : ∀ action input world, .performed action input world ∈ l.activities engine →
      view (engine.registry.perform action input world).2 = view world) :
    view (drain engine l.stack l.progress).2.stage.world = view l.progress.stage.world :=
  h.kept_drain (P := fun world => view world = view l.progress.stage.world)
    (fun rule hrule frames world hsame => (hrefine rule hrule frames world).trans hsame)
    (fun action input world hcalled hsame => (hperform action input world hcalled).trans hsame) rfl

end Run.Course

theorem Engine.kept_invoke (engine : Engine σ) {P : σ → Prop} {stage : Stage σ RecordStore}
    (hrefine : ∀ rule ∈ engine.rules, ∀ frames world,
      P world → P (refine rule frames world).2)
    (hperform : ∀ action input world,
      P world → P (engine.registry.perform action input world).2)
    (hstore : stage.store.Reachable) (hsettled : stage.store.records = []) (action : ActionId)
    (input : Payload) (hbefore : P stage.world) : P (engine.invoke action input stage).2.world := by
  rw [engine.world_invoke]
  cases hopening : Run.opening engine action input (Run.start stage none) with
  | none =>
    rw [Run.invoke_of_no_opening hopening]
    change P (if _ then _ else _)
    split
    · exact hperform action input stage.world hbefore
    · exact hbefore
  | some l =>
    rw [Run.invoke_of_opening hopening]
    have hcourse : Run.Course engine False [] ⟨[], Run.start stage none⟩ :=
      .start hstore (by simp [hsettled])
    obtain ⟨root, hopened⟩ := Run.opened hcourse.reachable hopening
    have hroot := hperform action input stage.world hbefore
    rw [show engine.registry.perform action input stage.world = _ from hopened.performed] at hroot
    exact (hcourse.invoke action input hopening).kept_drain hrefine
      (fun action input world _ => hperform action input world) hroot

end ConceptSync
