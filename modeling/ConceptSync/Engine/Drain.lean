import ConceptSync.Engine.Step

set_option autoImplicit false
set_option relaxedAutoImplicit false

/-!
The work stack of a run. A piece of work is replaced by the work it leads to until nothing is left.
Every piece has a rank that its successors stay below, because each completion is one step deeper
than its trigger and no step is deeper than the limit; so the stack empties.
-/

namespace ConceptSync

variable {σ π : Type}

/-- The ranks of the pieces of work on a stack. -/
structure StackRanks where
  ranks : List Nat

namespace StackRanks

/-- One stack comes after another when its top was replaced by pieces of lower rank. -/
def After (s t : StackRanks) : Prop :=
  ∃ rank rest new, t.ranks = rank :: rest ∧ s.ranks = new ++ rest ∧ ∀ r ∈ new, r < rank

private theorem acc_nil : Acc After ⟨[]⟩ :=
  ⟨_, fun _ ⟨_, _, _, h, _⟩ => nomatch h⟩

private theorem acc_append {rank : Nat} {rest new : List Nat}
    (below : ∀ r, r < rank → ∀ l, Acc After ⟨l⟩ → Acc After ⟨r :: l⟩)
    (hrest : Acc After ⟨rest⟩) (hnew : ∀ r ∈ new, r < rank) : Acc After ⟨new ++ rest⟩ := by
  induction new with
  | nil => exact hrest
  | cons r new ih =>
    exact below r (hnew r (by simp)) _ (ih fun r' hr' => hnew r' (by simp [hr']))

private theorem acc_cons (rank : Nat) : ∀ l, Acc After ⟨l⟩ → Acc After ⟨rank :: l⟩ := by
  induction rank using Nat.strongRecOn with
  | ind rank below =>
    intro l hl
    constructor
    rintro ⟨s⟩ ⟨rank', rest, new, ht, hs, hnew⟩
    cases ht
    cases hs
    exact acc_append below hl hnew

private theorem acc (l : List Nat) : Acc After ⟨l⟩ := by
  induction l with
  | nil => exact acc_nil
  | cons rank l ih => exact acc_cons rank l ih

/-- No stack can be replaced forever. -/
theorem wellFounded_after : WellFounded After := ⟨fun s => acc s.ranks⟩

instance : WellFoundedRelation StackRanks := ⟨After, wellFounded_after⟩

end StackRanks

/-- The rank of a piece of work under a depth limit: deeper is lower, and within one depth a
completion comes before its evaluations and these before their invocations. -/
def Work.rank (limit : Nat) : Work σ → Nat
  | .complete _ record => 3 * (limit - record.depth) + 2
  | .evaluate _ _ trigger => 3 * (limit - trigger.depth) + 1
  | .invoke _ _ _ trigger => 3 * (limit - trigger.depth)

private theorem rank_offerRules (limit : Nat) (action : ActionId) (record : Record)
    (rules : List (Rule σ)) (states : List JoinState) :
    ∀ w ∈ (offerRules action record rules states).1,
      w.rank limit = 3 * (limit - record.depth) + 1 := by
  induction rules generalizing states with
  | nil => simp [offerRules]
  | cons rule rules ih =>
    intro w hw
    simp only [offerRules] at hw
    split at hw
    · exact ih _ w hw
    · rcases List.mem_cons.mp hw with rfl | hw
      · rfl
      · exact ih _ w hw

private theorem rank_resolveFrames (limit : Nat) (rule : Rule σ) (trigger : Record)
    (frames : List Frame) (run : Run σ) :
    ∀ w ∈ (resolveFrames rule trigger frames run).1,
      w.rank limit = 3 * (limit - trigger.depth) := by
  induction frames generalizing run with
  | nil => simp [resolveFrames]
  | cons f rest ih =>
    intro w hw
    simp only [resolveFrames] at hw
    split at hw
    · rcases List.mem_append.mp hw with hw | hw
      · obtain ⟨i, _, rfl⟩ := List.mem_map.mp hw
        rfl
      · exact ih _ w hw
    · exact ih _ w hw

variable [RecordKeeper π]

/-- An invocation that is not refused stays within the limit. -/
theorem depth_le_of_refusal {engine : Engine σ} {action : String} {input : Payload}
    {trigger : Record} {store : π} (h : refusal engine action input trigger store = .ok none) :
    trigger.depth + 1 ≤ engine.config.maxDepth := by
  unfold refusal at h
  dsimp only at h
  split at h
  · simp at h
  · omega

/-- The completion that an invocation leads to is one step deeper than its trigger. -/
theorem depth_of_performInvocation {engine : Engine σ} {rule : Rule σ} {action : ActionId}
    {input : Payload} {trigger : Record} {p : Progress σ π} {next : List (Work σ)}
    (h : (performInvocation engine rule action input trigger p).1 = .ok next) :
    ∀ w ∈ next, ∃ record, w = .complete action record ∧ record.depth = trigger.depth + 1 := by
  unfold performInvocation at h
  dsimp only at h
  split at h
  · simp at h
  · cases h
    simp
  · split at h
    · next record store hkeep =>
      cases h
      intro w hw
      refine ⟨record, List.mem_singleton.mp hw, ?_⟩
      exact RecordKeeper.depth_persistChild _ _ _ record (by rw [hkeep])
    · simp at h

/-- The work that a piece of work leads to is of lower rank. -/
theorem rank_step {engine : Engine σ} {work : Work σ} {p : Progress σ π} {next : List (Work σ)}
    (h : (step engine work p).1 = .ok next) :
    ∀ w ∈ next, w.rank engine.config.maxDepth < work.rank engine.config.maxDepth := by
  intro w hw
  cases work with
  | complete action record =>
    simp only [step, completeRecord] at h
    split at h
    · cases h
      simp at hw
    · cases h
      rw [rank_offerRules _ _ _ _ _ w hw]
      simp [Work.rank]
  | evaluate rule frames trigger =>
    simp only [step, evaluateFiring] at h
    split at h
    · simp at h
    · cases h
      simp at hw
    · cases h
      simp at hw
    · cases h
      rw [rank_resolveFrames _ _ _ _ _ w hw]
      simp [Work.rank]
  | invoke rule action input trigger =>
    simp only [step, dispatch] at h
    split at h
    · simp at h
    · cases h
      simp at hw
    · next hrefusal =>
      obtain ⟨record, rfl, hdepth⟩ := depth_of_performInvocation h w hw
      have := depth_le_of_refusal hrefusal
      simp only [Work.rank, hdepth]
      omega

/-- Do all work on the stack, from the top, and the work it leads to first. Work that is left when
the run is cancelled is dropped. -/
def drain (engine : Engine σ) (stack : List (Work σ)) (p : Progress σ π) :
    Except Halt Unit × Progress σ π :=
  match stack with
  | [] => (.ok (), p)
  | work :: rest =>
    -- asked before every piece of work, so nothing is broken off half done
    if p.isCancelled then (.ok (), p.withRun { p.run with cancelled := true })
    else
      match _h : step engine work p with
      | (.error halt, p) => (.error halt, p)
      | (.ok next, p) => drain engine (next ++ rest) p
termination_by StackRanks.mk (stack.map (Work.rank engine.config.maxDepth))
decreasing_by
  refine ⟨work.rank engine.config.maxDepth, rest.map (Work.rank engine.config.maxDepth),
    next.map (Work.rank engine.config.maxDepth), rfl, by simp, ?_⟩
  intro r hr
  obtain ⟨w, hw, rfl⟩ := List.mem_map.mp hr
  exact rank_step (by rw [_h]) w hw

end ConceptSync
