import Mathlib.Algebra.Group.Nat.Defs
import ConceptSync.Proofs.Engine.Life

set_option autoImplicit false
set_option relaxedAutoImplicit false

/-!
The depth limit. Whatever rules trigger each other, a run ends, no completion of it is deeper than
the limit, and an invocation that would be deeper is given up before anything is called. Depths are
counted in 32 bits; the limit keeps the count of every invocation below that.
-/

namespace ConceptSync

variable {σ : Type}

private theorem step_beyond_depth {π : Type} [RecordKeeper π] {engine : Engine σ} (rule : Rule σ)
    (action : ActionId) (input : Payload) {trigger : Record} (p : Progress σ π)
    (h : engine.config.maxDepth < trigger.depth + 1) :
    (Work.invoke rule action input trigger).activities engine p = [] ∧
      step engine (.invoke rule action input trigger) p =
        (.ok [], p.withRun (p.run.abort rule trigger
          (.depthExceeded (engine.registry.nameOf action) (trigger.depth + 1)
            engine.config.maxDepth))) := by
  have hrefusal : refusal engine (engine.registry.nameOf action) input trigger p.stage.store =
      .ok (some (.depthExceeded (engine.registry.nameOf action) (trigger.depth + 1)
        engine.config.maxDepth)) := by
    unfold refusal
    rw [if_pos h]
  constructor
  · simp only [Work.activities, hrefusal]
  · simp only [step, dispatch, hrefusal]

/-- Every loop that an invocation opens in a run comes to its end. All along, the completions of the
run stay within the depth limit, the depth of the next invocation fits in 32 bits, and an
invocation beyond the limit is given up without a call. -/
theorem Run.Life.ends_within_depth {engine : Engine σ} {ms : List (Matching σ)}
    {p : Progress σ RecordStore} (live : Life engine ms p)
    (room : engine.config.maxDepth < 2 ^ 32 - 1) (action : ActionId) (input : Payload)
    {l : Loop σ RecordStore} (hopening : opening engine action input p = some l) :
    (∃ turns, l.run engine turns = some (drain engine l.stack l.progress)) ∧
      (∀ r ∈ (drain engine l.stack l.progress).2.stage.store.readRun p.run.id,
        r.depth ≤ engine.config.maxDepth) ∧
      ∀ l', Loop.Reaches engine l l' →
        (∀ r ∈ l'.progress.stage.store.readRun p.run.id, r.depth ≤ engine.config.maxDepth) ∧
        ∀ rule action input trigger,
          l'.next? = some (.invoke rule action input trigger, l'.progress) →
          trigger.depth + 1 < 2 ^ 32 ∧
          (engine.config.maxDepth < trigger.depth + 1 →
            (Work.invoke rule action input trigger).activities engine l'.progress = [] ∧
            step engine (.invoke rule action input trigger) l'.progress =
              (.ok [], l'.progress.withRun (l'.progress.run.abort rule trigger
                (.depthExceeded (engine.registry.nameOf action) (trigger.depth + 1)
                  engine.config.maxDepth)))) := by
  have hsound : l.Sound engine := live.sound.1.opening hopening
  obtain ⟨_, _, _, hrun, _⟩ := opening_cases hopening
  have hid : l.progress.run.id = p.run.id := congrArg Run.id hrun
  refine ⟨l.run_ends engine, ?_, ?_⟩
  · have hwithin := hsound.drain.within
    rw [(Loop.continues_drain engine l).id, hid] at hwithin
    exact hwithin
  · intro l' hreach
    have hsound' := hsound.reaches hreach
    have hid' : l'.progress.run.id = p.run.id := (Loop.continues_of_reaches hreach).id.trans hid
    refine ⟨hid' ▸ hsound'.run.within, ?_⟩
    intro rule action input trigger hnext
    have hqueued := (hsound'.queued _ (Loop.mem_stack_of_next hnext).1).2
    have hdepth : trigger.depth ≤ engine.config.maxDepth := hqueued
    exact ⟨by omega, step_beyond_depth rule action input l'.progress⟩

/-- A rule that triggers itself without the cycle guard. -/
theorem again_ends_within_depth :
    let engine := Engine.echo [.again] { maxDepth := 2, cycleGuard := false }
    let p : Progress Unit RecordStore := Run.start ⟨(), .empty, 0⟩ none
    Run.Life engine [] p ∧ engine.config.maxDepth < 2 ^ 32 - 1 ∧
      ∃ l, Run.opening engine ⟨0⟩ [] p = some l ∧
        (∃ turns, l.run engine turns = some (drain engine l.stack l.progress)) ∧
        ∀ r ∈ (drain engine l.stack l.progress).2.stage.store.readRun p.run.id, r.depth ≤ 2 := by
  intro engine p
  have live : Run.Life engine [] p := .start ⟨[], rfl⟩ (by simp [RecordStore.empty])
  have room : engine.config.maxDepth < 2 ^ 32 - 1 := by decide
  obtain ⟨hends, hwithin, _⟩ := live.ends_within_depth room ⟨0⟩ [] (l := _) rfl
  exact ⟨live, room, _, rfl, hends, hwithin⟩

end ConceptSync
