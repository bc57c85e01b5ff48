import Mathlib.Logic.Relation
import ConceptSync.Proofs.Engine.Step

set_option autoImplicit false
set_option relaxedAutoImplicit false

/-!
The loop of a run, turn by turn. `Loop.turn` is one turn with no argument why turns come to an end;
the ranks of the stack give that argument, and with it the pieces of work that a loop does, in
order, and the calls it makes.
-/

namespace ConceptSync

variable {σ π : Type}

/-- A state of the loop: the stack, top first, and the run so far. -/
structure Loop (σ π : Type) where
  stack : List (Work σ)
  progress : Progress σ π

variable [RecordKeeper π]

namespace Loop

/-- One turn: the loop after it, or how the loop ended. -/
def turn (engine : Engine σ) (l : Loop σ π) : Loop σ π ⊕ (Except Halt Unit × Progress σ π) :=
  match l.stack with
  | [] => .inr (.ok (), l.progress)
  | work :: rest =>
    if l.progress.isCancelled then
      .inr (.ok (), l.progress.withRun { l.progress.run with cancelled := true })
    else
      match step engine work l.progress with
      | (.error halt, p) => .inr (.error halt, p)
      | (.ok next, p) => .inl ⟨next ++ rest, p⟩

def run (engine : Engine σ) : Nat → Loop σ π → Option (Except Halt Unit × Progress σ π)
  | 0, _ => none
  | n + 1, l =>
    match l.turn engine with
    | .inl l => run engine n l
    | .inr result => some result

def next? (l : Loop σ π) : Option (Work σ × Progress σ π) :=
  match l.stack with
  | [] => none
  | work :: _ => if l.progress.isCancelled then none else some (work, l.progress)

def historyWithin (engine : Engine σ) : Nat → Loop σ π → List (Work σ × Progress σ π)
  | 0, _ => []
  | n + 1, l =>
    l.next?.toList ++
      match l.turn engine with
      | .inl l' => historyWithin engine n l'
      | .inr _ => []

/-- The loops that a loop is turned into sooner or later. -/
def Reaches (engine : Engine σ) : Loop σ π → Loop σ π → Prop :=
  Relation.ReflTransGen fun l l' => l.turn engine = .inl l'

def ranks (limit : Nat) (l : Loop σ π) : StackRanks := ⟨l.stack.map (Work.rank limit)⟩

omit [RecordKeeper π] in
theorem mem_stack_of_next {l : Loop σ π} {work : Work σ} {p : Progress σ π}
    (h : l.next? = some (work, p)) : work ∈ l.stack ∧ p = l.progress := by
  unfold next? at h
  split at h
  · cases h
  · next hstack =>
    split at h
    · cases h
    · cases h
      exact ⟨by simp [hstack], rfl⟩

/-- A turn does one piece of work and puts what it leads to on the stack in its place. -/
theorem turn_cases {engine : Engine σ} {l l' : Loop σ π} (h : l.turn engine = .inl l') :
    ∃ work rest next, l.stack = work :: rest ∧ l.next? = some (work, l.progress) ∧
      step engine work l.progress = (.ok next, l'.progress) ∧ l'.stack = next ++ rest := by
  unfold turn at h
  split at h
  · simp at h
  · next work rest hstack =>
    split at h
    · simp at h
    · next hcancel =>
      split at h
      · simp at h
      · next next p hstep =>
        cases h
        exact ⟨work, rest, next, hstack, by simp [next?, hstack, hcancel], hstep, rfl⟩

theorem turn_of_step {engine : Engine σ} {l : Loop σ π} {work : Work σ}
    {rest next : List (Work σ)} {p : Progress σ π} (hcancel : l.progress.run.cancel = none)
    (hstack : l.stack = work :: rest) (hstep : step engine work l.progress = (.ok next, p)) :
    l.turn engine = .inl ⟨next ++ rest, p⟩ := by
  have hgoes : l.progress.isCancelled = false := by
    simp [Progress.isCancelled, hcancel]
  simp [turn, hstack, hgoes, hstep]

theorem turn_ends {engine : Engine σ} {l : Loop σ π} {result : Except Halt Unit × Progress σ π}
    (h : l.turn engine = .inr result) :
    (l.next? = none ∧ l.stack = [] ∧ result = (.ok (), l.progress)) ∨
      (l.next? = none ∧ l.progress.isCancelled = true ∧
        result = (.ok (), l.progress.withRun { l.progress.run with cancelled := true })) ∨
      ∃ work rest halt, l.stack = work :: rest ∧ l.next? = some (work, l.progress) ∧
        step engine work l.progress = (.error halt, result.2) ∧ result.1 = .error halt := by
  unfold turn at h
  split at h
  · next hstack =>
    cases h
    exact .inl ⟨by simp [next?, hstack], hstack, rfl⟩
  · next work rest hstack =>
    split at h
    · next hcancel =>
      cases h
      exact .inr (.inl ⟨by simp [next?, hstack, hcancel], hcancel, rfl⟩)
    · next hcancel =>
      split at h
      · next halt p hstep =>
        cases h
        exact .inr (.inr ⟨work, rest, halt, hstack, by simp [next?, hstack, hcancel], hstep, rfl⟩)
      · simp at h

private theorem ranks_turn {engine : Engine σ} {l l' : Loop σ π} (h : l.turn engine = .inl l') :
    StackRanks.After (l'.ranks engine.config.maxDepth) (l.ranks engine.config.maxDepth) := by
  obtain ⟨work, rest, next, hstack, _, hstep, hstack'⟩ := turn_cases h
  refine ⟨work.rank engine.config.maxDepth, rest.map (Work.rank engine.config.maxDepth),
    next.map (Work.rank engine.config.maxDepth), by simp [ranks, hstack],
    by simp [ranks, hstack'], ?_⟩
  intro r hr
  obtain ⟨w, hw, rfl⟩ := List.mem_map.mp hr
  exact rank_step (by rw [hstep]) w hw

/-- No loop turns forever. -/
theorem wellFounded_turn (π : Type) [RecordKeeper π] (engine : Engine σ) :
    WellFounded fun l' l : Loop σ π => l.turn engine = .inl l' := by
  have hranks := InvImage.wf (fun l : Loop σ π => l.ranks engine.config.maxDepth)
    StackRanks.wellFounded_after
  exact Subrelation.wf ranks_turn hranks

/-- The pieces of work that the loop does, each with the run it is done in. -/
def history (engine : Engine σ) (l : Loop σ π) : List (Work σ × Progress σ π) :=
  l.next?.toList ++
    match _h : l.turn engine with
    | .inl l' => history engine l'
    | .inr _ => []
termination_by l.ranks engine.config.maxDepth
decreasing_by exact ranks_turn _h

def activities (engine : Engine σ) (l : Loop σ π) : List (Activity σ) :=
  (l.history engine).flatMap fun done => done.1.activities engine done.2

/-- Draining a stack is turning its loop to the end. -/
theorem drain_eq_turn (engine : Engine σ) (l : Loop σ π) :
    drain engine l.stack l.progress =
      match l.turn engine with
      | .inl l' => drain engine l'.stack l'.progress
      | .inr result => result := by
  obtain ⟨stack, p⟩ := l
  cases stack with
  | nil => rw [drain]; rfl
  | cons work rest =>
    rw [drain]
    simp only [turn]
    split
    · rfl
    · split
      · next h => rw [h]
      · next h => rw [h]

theorem history_eq_turn (engine : Engine σ) (l : Loop σ π) :
    l.history engine = l.next?.toList ++
      match l.turn engine with
      | .inl l' => l'.history engine
      | .inr _ => [] := by
  rw [history]
  split
  · next h => rw [h]
  · next h => rw [h]

theorem activities_eq_turn (engine : Engine σ) (l : Loop σ π) :
    l.activities engine = (l.next?.toList.flatMap fun done => done.1.activities engine done.2) ++
      match l.turn engine with
      | .inl l' => l'.activities engine
      | .inr _ => [] := by
  rw [activities, history_eq_turn, List.flatMap_append]
  cases l.turn engine <;> rfl

theorem drain_of_reaches {engine : Engine σ} {l l' : Loop σ π} (h : Reaches engine l l') :
    drain engine l.stack l.progress = drain engine l'.stack l'.progress := by
  induction h with
  | refl => rfl
  | tail _ hturn ih => rw [ih, drain_eq_turn, hturn]

/-- What every turn keeps, and what it comes to where a turn ends the loop, is what draining the
stack comes to. -/
theorem drain_of_kept (engine : Engine σ) {I : Loop σ π → Prop} {P : Progress σ π → Prop}
    (hkept : ∀ l l', I l → l.turn engine = .inl l' → I l')
    (hends : ∀ l result, I l → l.turn engine = .inr result → P result.2) {l : Loop σ π} (h : I l) :
    P (drain engine l.stack l.progress).2 := by
  induction l using (wellFounded_turn π engine).induction with | h l ih => ?_
  rw [drain_eq_turn]
  rcases hturn : l.turn engine with l' | result
  · exact ih l' hturn (hkept l l' h hturn)
  · exact hends l result h hturn

theorem run_ends (engine : Engine σ) (l : Loop σ π) :
    ∃ n, l.run engine n = some (drain engine l.stack l.progress) := by
  induction l using (wellFounded_turn π engine).induction with | h l ih => ?_
  rw [drain_eq_turn]
  cases hturn : l.turn engine with
  | inl l' =>
    obtain ⟨n, hn⟩ := ih l' hturn
    refine ⟨n + 1, ?_⟩
    simp only [run, hturn]
    exact hn
  | inr result => exact ⟨1, by simp only [run, hturn]⟩

theorem of_run {engine : Engine σ} {n : Nat} {l : Loop σ π}
    {result : Except Halt Unit × Progress σ π} (h : l.run engine n = some result) :
    drain engine l.stack l.progress = result ∧ l.history engine = l.historyWithin engine n := by
  induction n generalizing l with
  | zero => cases h
  | succ n ih =>
    rw [drain_eq_turn, history_eq_turn]
    rw [run] at h
    rcases hturn : l.turn engine with l' | ended
    · rw [hturn] at h
      obtain ⟨hdrain, hhistory⟩ := ih h
      exact ⟨hdrain, by simp only [historyWithin, hturn, hhistory]⟩
    · rw [hturn] at h
      exact ⟨Option.some.inj h, by simp only [historyWithin, hturn]⟩

theorem continues_of_reaches {engine : Engine σ} {l l' : Loop σ π} (h : Reaches engine l l') :
    l.progress.Continues l'.progress := by
  induction h with
  | refl => exact .refl _
  | @tail m m' _ hturn ih =>
    obtain ⟨work, _, _, _, _, hstep, _⟩ := turn_cases hturn
    have hcontinues := continues_step engine work m.progress
    rw [hstep] at hcontinues
    exact ih.trans hcontinues

theorem continues_drain (engine : Engine σ) (l : Loop σ π) :
    l.progress.Continues (drain engine l.stack l.progress).2 := by
  refine drain_of_kept engine (I := Reaches engine l) (fun _ _ => .tail)
    (fun m result hreach hturn => ?_) .refl
  refine (continues_of_reaches hreach).trans ?_
  rcases turn_ends hturn with ⟨_, _, rfl⟩ | ⟨_, _, rfl⟩ | ⟨work, _, _, _, _, hstep, _⟩
  · exact .refl _
  · exact ⟨rfl, rfl, rfl⟩
  · have hcontinues := continues_step engine work m.progress
    rwa [hstep] at hcontinues

theorem uncancelled_of_no_flag {engine : Engine σ} {l : Loop σ π}
    (h : l.progress.run.cancel = none) (l' : Loop σ π) (hreach : Reaches engine l l') :
    l'.progress.isCancelled = false := by
  have hcancel := (continues_of_reaches hreach).cancel
  rw [h] at hcancel
  simp [Progress.isCancelled, hcancel]

theorem mem_history {engine : Engine σ} {l : Loop σ π} {done : Work σ × Progress σ π} :
    done ∈ l.history engine ↔ ∃ l', Reaches engine l l' ∧ l'.next? = some done := by
  induction l using (wellFounded_turn π engine).induction with | h l ih => ?_
  rw [history_eq_turn, List.mem_append, Option.mem_toList]
  constructor
  · rintro (hnext | hlater)
    · exact ⟨l, .refl, hnext⟩
    · cases hturn : l.turn engine with
      | inl l' =>
        rw [hturn] at hlater
        obtain ⟨m, hreach, hm⟩ := (ih l' hturn).mp hlater
        exact ⟨m, .head hturn hreach, hm⟩
      | inr result => simp [hturn] at hlater
  · rintro ⟨m, hreach, hm⟩
    rcases Relation.ReflTransGen.cases_head hreach with rfl | ⟨l', hturn, hreach⟩
    · exact .inl hm
    · right
      rw [hturn]
      exact (ih l' hturn).mpr ⟨m, hreach, hm⟩

theorem invoke_of_performed {engine : Engine σ} {l : Loop σ π} {action : ActionId}
    {input : Payload} {world : σ} (h : .performed action input world ∈ l.activities engine) :
    ∃ l' rule trigger, Reaches engine l l' ∧ .invoke rule action input trigger ∈ l'.stack ∧
      refusal engine (engine.registry.nameOf action) input trigger l'.progress.stage.store =
        .ok none := by
  obtain ⟨⟨work, p⟩, hdone, hcall⟩ := List.mem_flatMap.mp h
  obtain ⟨l', hreach, hnext⟩ := mem_history.mp hdone
  obtain ⟨hqueued, rfl⟩ := mem_stack_of_next hnext
  cases work with
  | complete _ _ => cases hcall
  | evaluate rule frames trigger =>
    simp only [Work.activities, Rule.refinementCall] at hcall
    split at hcall
    · cases List.mem_singleton.mp hcall
    · cases hcall
  | invoke rule action' input' trigger =>
    simp only [Work.activities] at hcall
    split at hcall
    · next hallowed =>
      cases List.mem_singleton.mp hcall
      exact ⟨l', rule, trigger, hreach, hqueued, hallowed⟩
    · cases hcall

/-- The calls of a loop are all that changes the world. -/
theorem traces_activities (engine : Engine σ) (l : Loop σ π) :
    Traces engine l.progress.stage.world (l.activities engine)
      (drain engine l.stack l.progress).2.stage.world := by
  induction l using (wellFounded_turn π engine).induction with | h l ih => ?_
  rw [drain_eq_turn, activities_eq_turn]
  rcases hturn : l.turn engine with l' | result
  · obtain ⟨work, rest, next, _, hnext, hstep, _⟩ := turn_cases hturn
    have hwork := traces_step engine work l.progress
    rw [hstep] at hwork
    rw [hnext]
    simpa using hwork.append (ih l' hturn)
  · rcases turn_ends hturn with
      ⟨hnext, _, rfl⟩ | ⟨hnext, _, rfl⟩ | ⟨work, _, halt, _, hnext, hstep, _⟩
    · rw [hnext]
      exact .nil _
    · rw [hnext]
      exact .nil _
    · have hwork := traces_step engine work l.progress
      rw [hstep] at hwork
      rw [hnext]
      simpa using hwork

end Loop

def Engine.echo (rules : List (Rule Unit)) (config : EngineConfig) : Engine Unit :=
  let concept : Concept Unit :=
    ⟨"Echo", [.action "say"], fun _ input => pure input, fun _ _ => pure []⟩
  ⟨⟨[⟨concept, .action "say", "Echo.say"⟩], [concept]⟩, rules, config⟩

def Rule.again : Rule Unit :=
  ⟨"Again", .empty, { whenPatterns := [.of ⟨0⟩], thenPatterns := [.of ⟨0⟩] }⟩

end ConceptSync
