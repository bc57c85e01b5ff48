import ConceptSync.Proofs.Engine.Upholding
import ConceptSync.Proofs.Frame.Resolving
import ConceptSync.Proofs.Join.Binding

set_option autoImplicit false
set_option relaxedAutoImplicit false

/-!
Unbound variables, found before anything runs. A joined frame binds the variables of the patterns a
rule waits for and no others; so of a rule without a clause either all frames have all variables, or
none of them has the first one that is missing, which can be told from the rule alone.
-/

namespace ConceptSync

variable {σ π : Type}

namespace Rule

def boundVars (rule : Rule σ) : List Var := rule.clauses.whenPatterns.flatMap Pattern.vars

def neededVars (rule : Rule σ) : List Var :=
  rule.clauses.thenPatterns.flatMap fun p => p.input.vars

def firstUnbound? (rule : Rule σ) : Option Var :=
  rule.neededVars.find? fun v => decide (v ∉ rule.boundVars)

variable {rule : Rule σ} {f : Frame} {v : Var}

private theorem mem_unboundVars :
    v ∈ rule.unboundVars ↔ v ∈ rule.neededVars ∧ v ∉ rule.boundVars := by
  simp [unboundVars, neededVars, boundVars, List.mem_eraseDups, List.mem_mergeSort]

private theorem mem_unboundVars_of_first (h : rule.firstUnbound? = some v) :
    v ∈ rule.unboundVars := by
  have hunbound := List.find?_some h
  exact mem_unboundVars.mpr ⟨List.mem_of_find?_eq_some h, of_decide_eq_true hunbound⟩

private theorem firstUnbound?_eq_none_iff : rule.firstUnbound? = none ↔ rule.unboundVars = [] := by
  simp only [firstUnbound?, List.find?_eq_none, List.eq_nil_iff_forall_not_mem, mem_unboundVars,
    decide_eq_true_iff, not_and]

private theorem missing?_of_binds (h : f.Binds rule.boundVars) :
    f.missing? rule.neededVars = rule.firstUnbound? := by
  unfold Frame.missing? firstUnbound?
  congr
  ext v
  rw [Bool.eq_iff_iff, Bool.not_eq_true', Bool.eq_false_iff, decide_eq_true_iff, ne_eq, h v]

private theorem resolveAll_of_binds (h : f.Binds rule.boundVars)
    (hnone : rule.firstUnbound? = none) :
    ∃ inputs, f.resolveAll rule.clauses.thenPatterns = .ok inputs := by
  cases hresolve : f.resolveAll rule.clauses.thenPatterns with
  | ok inputs => exact ⟨inputs, rfl⟩
  | error e =>
    obtain ⟨v, hv, _⟩ := Frame.resolveAll_eq_error_iff.mp hresolve
    have hmissing : f.missing? rule.neededVars = some v := hv
    rw [missing?_of_binds h, hnone] at hmissing
    cases hmissing

private theorem resolveAll_of_first (h : f.Binds rule.boundVars)
    (hfirst : rule.firstUnbound? = some v) :
    f.resolveAll rule.clauses.thenPatterns = .error (.unbound v) :=
  Frame.resolveAll_eq_error_iff.mpr ⟨v, (missing?_of_binds h).trans hfirst, rfl⟩

def missed (rule : Rule σ) (trigger : Record) (v : Var) : AbortedBranch :=
  ⟨rule.name, trigger.seq, .unboundVariable v (rule.scope.describe v)⟩

end Rule

def Work.Bound (engine : Engine σ) : Work σ → Prop
  | .complete _ _ => True
  | .evaluate rule frames _ => rule ∈ engine.rules ∧ ∀ f ∈ frames, f.Binds rule.boundVars
  | .invoke rule _ _ _ => rule.clauses.whereClause = none → rule.unboundVars = []

def AbortedBranch.Foretold (engine : Engine σ) (branch : AbortedBranch) : Prop :=
  ∀ v name, branch.error = .unboundVariable v name → ∃ rule ∈ engine.rules,
    rule.name = branch.rule ∧ (rule.clauses.whereClause = none →
      v ∈ rule.unboundVars ∧ name = rule.scope.describe v)

def Admission.all : Admission := ⟨fun _ _ _ => True, fun _ _ => True⟩

section Step

variable [RecordKeeper π] {engine : Engine σ} {rule : Rule σ} {frames : List Frame}
  {trigger : Record} {p : Progress σ π}

private theorem aborted_of_none (hclause : rule.clauses.whereClause = none)
    (hbinds : ∀ f ∈ frames, f.Binds rule.boundVars) (hnone : rule.firstUnbound? = none) :
    (step engine (.evaluate rule frames trigger) p).2.run.aborted = p.run.aborted := by
  have hrefine : refine rule frames p.stage.world = (.frames frames, p.stage.world) :=
    refine_of_no_clause frames _ (by rw [hclause]; rfl)
  cases frames with
  | nil => rw [evaluate_of_no_frames hrefine]; rfl
  | cons f rest =>
    have habandoned : (f :: rest).flatMap (rule.abandoned trigger) = [] := by
      refine List.flatMap_eq_nil_iff.mpr fun g hg => ?_
      obtain ⟨inputs, hinputs⟩ := Rule.resolveAll_of_binds (hbinds g hg) hnone
      rw [Rule.abandoned, hinputs]
    rw [evaluate_of_frames hrefine, habandoned]
    exact List.append_nil _

private theorem step_of_first (hclause : rule.clauses.whereClause = none)
    (hbinds : ∀ f ∈ frames, f.Binds rule.boundVars) {v : Var}
    (hfirst : rule.firstUnbound? = some v) :
    (step engine (.evaluate rule frames trigger) p).1 = .ok [] ∧
      (step engine (.evaluate rule frames trigger) p).2.run.aborted =
        p.run.aborted ++ frames.map fun _ => rule.missed trigger v := by
  have hrefine : refine rule frames p.stage.world = (.frames frames, p.stage.world) :=
    refine_of_no_clause frames _ (by rw [hclause]; rfl)
  have hresolve : ∀ f ∈ frames, f.resolveAll rule.clauses.thenPatterns = .error (.unbound v) :=
    fun f hf => Rule.resolveAll_of_first (hbinds f hf) hfirst
  cases frames with
  | nil =>
    rw [evaluate_of_no_frames hrefine]
    exact ⟨rfl, (List.append_nil _).symm⟩
  | cons f rest =>
    have hinvocations : (f :: rest).flatMap rule.invocations = [] := by
      refine List.flatMap_eq_nil_iff.mpr fun g hg => ?_
      rw [Rule.invocations, hresolve g hg]
    have habandoned : (f :: rest).flatMap (rule.abandoned trigger) =
        (f :: rest).map fun _ => rule.missed trigger v := by
      rw [List.map_eq_flatMap]
      refine List.flatMap_congr fun g hg => ?_
      rw [Rule.abandoned, hresolve g hg]
      rfl
    rw [evaluate_of_frames hrefine, hinvocations, habandoned]
    exact ⟨rfl, rfl⟩

private theorem bound_step {work : Work σ} (hmade : p.run.Made .all engine)
    (hwork : work.Bound engine) {next : List (Work σ)} (hnext : (step engine work p).1 = .ok next) :
    ∀ w ∈ next, w.Bound engine := by
  intro w hw
  cases work with
  | complete action record =>
    by_cases hseen : record.id ∈ p.run.seen
    · simp only [step, completeRecord_of_seen action hseen] at hnext
      cases hnext
      cases hw
    · simp only [step, completeRecord_of_unseen action hseen] at hnext
      cases hnext
      obtain ⟨firing, hfiring, rfl⟩ := List.mem_map.mp hw
      obtain ⟨k, hk, rfl⟩ := List.mem_mapIdx.mp (List.mem_filter.mp hfiring).1
      refine ⟨List.getElem_mem hk, fun f hf => ?_⟩
      obtain ⟨j, hj, rfl⟩ := List.mem_map.mp hf
      exact (hmade k _ (List.getElem?_eq_getElem hk)).binds_offered trivial
        (fun i q hq => by simpa using hq) j hj
  | evaluate rule frames trigger =>
    obtain ⟨left, world, hrefine, f, hf, i, hi, rfl⟩ := evaluate_step (Prod.ext hnext rfl) w hw
    intro hclause
    rw [refine_of_no_clause frames _ (by rw [hclause]; rfl)] at hrefine
    cases hrefine
    cases hfirst : rule.firstUnbound? with
    | none => exact Rule.firstUnbound?_eq_none_iff.mp hfirst
    | some v =>
      rw [Rule.invocations, Rule.resolveAll_of_first (hwork.2 f hf) hfirst] at hi
      cases hi
  | invoke rule action input trigger =>
    obtain ⟨record, rfl⟩ := invoke_step hnext w hw
    trivial

private theorem refusal_ne_unbound {action : String} {input : Payload} {store : π}
    {e : EngineError} (h : refusal engine action input trigger store = .ok (some e)) (v : Var)
    (name : String) : e ≠ .unboundVariable v name := by
  unfold refusal at h
  dsimp only at h
  split at h
  · cases h
    exact nofun
  · split at h
    · split at h
      · cases h
        exact nofun
      · cases h
      · cases h
    · cases h

private theorem foretold_of_clause (hrule : rule ∈ engine.rules)
    (hclause : rule.clauses.whereClause ≠ none) {branch : AbortedBranch}
    (hname : branch.rule = rule.name) : branch.Foretold engine :=
  fun _ _ _ => ⟨rule, hrule, hname.symm, fun hnone => absurd hnone hclause⟩

private theorem foretold_evaluate (hwork : (Work.evaluate rule frames trigger).Bound engine)
    {branch : AbortedBranch}
    (h : branch ∈ (step engine (.evaluate rule frames trigger) p).2.run.aborted) :
    branch ∈ p.run.aborted ∨ branch.Foretold engine := by
  obtain ⟨hrule, hbinds⟩ := hwork
  by_cases hclause : rule.clauses.whereClause = none
  · cases hfirst : rule.firstUnbound? with
    | none =>
      rw [aborted_of_none hclause hbinds hfirst] at h
      exact .inl h
    | some v =>
      rw [(step_of_first hclause hbinds hfirst).2] at h
      rcases List.mem_append.mp h with hold | hnew
      · exact .inl hold
      · right
        obtain ⟨_, _, rfl⟩ := List.mem_map.mp hnew
        intro w name herror
        cases herror
        exact ⟨rule, hrule, rfl, fun _ => ⟨Rule.mem_unboundVars_of_first hfirst, rfl⟩⟩
  · simp only [step, evaluateFiring] at h
    split at h
    · exact .inl h
    · rcases List.mem_append.mp h with hold | hnew
      · exact .inl hold
      · obtain rfl := List.mem_singleton.mp hnew
        exact .inr (foretold_of_clause hrule hclause rfl)
    · exact .inl h
    · rw [resolveFrames_eq_flatMap] at h
      rcases List.mem_append.mp h with hold | hnew
      · exact .inl hold
      · obtain ⟨f, _, hf⟩ := List.mem_flatMap.mp hnew
        unfold Rule.abandoned at hf
        split at hf
        · cases hf
        · obtain rfl := List.mem_singleton.mp hf
          exact .inr (foretold_of_clause hrule hclause rfl)

private theorem foretold_invoke {action : ActionId} {input : Payload} {branch : AbortedBranch}
    (h : branch ∈ (step engine (.invoke rule action input trigger) p).2.run.aborted) :
    branch ∈ p.run.aborted ∨ branch.Foretold engine := by
  have hother : ∀ e : EngineError, (∀ v name, e ≠ .unboundVariable v name) →
      branch ∈ (p.run.abort rule trigger e).aborted →
        branch ∈ p.run.aborted ∨ branch.Foretold engine := by
    intro e hne hmem
    rcases List.mem_append.mp hmem with hold | hnew
    · exact .inl hold
    · obtain rfl := List.mem_singleton.mp hnew
      exact .inr fun v name herror => absurd herror (hne v name)
  simp only [step, dispatch] at h
  split at h
  · exact .inl h
  · next hrefusal => exact hother _ (refusal_ne_unbound hrefusal) h
  · simp only [performInvocation] at h
    split at h
    · exact .inl h
    · exact hother _ (fun _ _ heq => by cases heq) h
    · split at h <;> exact .inl h

private theorem foretold_step {work : Work σ} (hwork : work.Bound engine) {branch : AbortedBranch}
    (h : branch ∈ (step engine work p).2.run.aborted) :
    branch ∈ p.run.aborted ∨ branch.Foretold engine := by
  cases work with
  | complete action record =>
    simp only [step, completeRecord] at h
    split at h <;> exact .inl h
  | evaluate rule frames trigger => exact foretold_evaluate hwork h
  | invoke rule action input trigger => exact foretold_invoke h

end Step

/-- A run at any moment from its start on, whoever keeps its records: callers invoke actions in it
and deliver what they like to it, and between two turns anything may happen to the stage. -/
inductive Run.Live [RecordKeeper π] (engine : Engine σ) : Loop σ π → Prop
  | start (stage : Stage σ π) (cancel : Option (σ → Bool)) : Live engine ⟨[], start stage cancel⟩
  | meanwhile {stack : List (Work σ)} {p : Progress σ π} (stage : Stage σ π) :
      Live engine ⟨stack, p⟩ → Live engine ⟨stack, ⟨p.run, stage⟩⟩
  | invoke {p : Progress σ π} {l : Loop σ π} (action : ActionId) (input : Payload) :
      Live engine ⟨[], p⟩ → opening engine action input p = some l → Live engine l
  | deliver {p : Progress σ π} {l : Loop σ π} (record : Record) :
      Live engine ⟨[], p⟩ → redelivery engine record p = some l → Live engine l
  | turn {l l' : Loop σ π} : Live engine l → l.turn engine = .inl l' → Live engine l'
  | ended {l : Loop σ π} {result : Except Halt Unit} {p : Progress σ π} :
      Live engine l → l.turn engine = .inr (result, p) → Live engine ⟨[], p⟩

structure Loop.Bound (engine : Engine σ) (l : Loop σ π) : Prop where
  made : l.progress.run.Made .all engine
  queued : ∀ w ∈ l.stack, w.Bound engine
  foretold : ∀ branch ∈ l.progress.run.aborted, branch.Foretold engine

section Moments

variable [RecordKeeper π] {engine : Engine σ} {l : Loop σ π}

private theorem Run.Made.step {p : Progress σ π} (h : p.run.Made .all engine) (work : Work σ) :
    (ConceptSync.step engine work p).2.run.Made .all engine :=
  joinState_step
    (P := fun rule state => state.MadeBy Admission.all.completion rule.clauses.whenPatterns) work h
    fun _ _ _ _ _ hrule => (h.offered trivial hrule).2

namespace Loop.Bound

private theorem after {work : Work σ} (h : l.Bound engine) (hwork : work ∈ l.stack)
    {stack : List (Work σ)} (hstack : ∀ w ∈ stack, w.Bound engine) :
    Loop.Bound engine ⟨stack, (step engine work l.progress).2⟩ := by
  refine ⟨h.made.step work, hstack, fun branch hbranch => ?_⟩
  rcases foretold_step (h.queued work hwork) hbranch with hold | hnew
  · exact h.foretold branch hold
  · exact hnew

private theorem turn (h : l.Bound engine) {l' : Loop σ π} (hturn : l.turn engine = .inl l') :
    l'.Bound engine := by
  obtain ⟨work, rest, next, hstack, _, hstep, hstack'⟩ := Loop.turn_cases hturn
  have hwork : work ∈ l.stack := by rw [hstack]; exact List.mem_cons_self ..
  have hnext : (step engine work l.progress).1 = .ok next := congrArg Prod.fst hstep
  have hqueued : ∀ w ∈ l'.stack, w.Bound engine := by
    intro w hw
    rw [hstack'] at hw
    rcases List.mem_append.mp hw with hnew | hold
    · exact bound_step h.made (h.queued work hwork) hnext w hnew
    · exact h.queued w (by rw [hstack]; exact List.mem_cons_of_mem _ hold)
  have hafter := h.after hwork hqueued
  rw [hstep] at hafter
  exact hafter

private theorem ended (h : l.Bound engine) {result : Except Halt Unit} {p : Progress σ π}
    (hturn : l.turn engine = .inr (result, p)) : Loop.Bound engine ⟨[], p⟩ := by
  rcases Loop.turn_ends hturn with ⟨_, _, hend⟩ | ⟨_, _, hend⟩ |
    ⟨work, rest, halt, hstack, _, hstep, _⟩
  · cases hend
    exact ⟨h.made, List.forall_mem_nil _, h.foretold⟩
  · cases hend
    exact ⟨h.made, List.forall_mem_nil _, h.foretold⟩
  · have hwork : work ∈ l.stack := by rw [hstack]; exact List.mem_cons_self ..
    have hafter := h.after hwork (List.forall_mem_nil _)
    rw [hstep] at hafter
    exact hafter

omit [RecordKeeper π] in
private theorem complete {p : Progress σ π} (h : Loop.Bound engine ⟨[], p⟩) {action : ActionId}
    {record : Record} (hstack : l.stack = [.complete action record])
    (hrun : l.progress.run = p.run) : l.Bound engine := by
  refine ⟨hrun ▸ h.made, fun w hw => ?_, hrun ▸ h.foretold⟩
  rw [hstack] at hw
  obtain rfl := List.mem_singleton.mp hw
  trivial

end Loop.Bound

private theorem Run.Live.bound (h : Run.Live engine l) : l.Bound engine := by
  induction h with
  | start stage cancel =>
    exact ⟨made_of_no_joins rfl, List.forall_mem_nil _, List.forall_mem_nil _⟩
  | meanwhile stage _ ih => exact ⟨ih.made, ih.queued, ih.foretold⟩
  | invoke action input _ hopening ih =>
    obtain ⟨_, _, hstack, hrun, _⟩ := opening_cases hopening
    exact ih.complete hstack hrun
  | deliver record _ hdelivery ih =>
    obtain ⟨_, rfl⟩ := redelivery_cases hdelivery
    exact ih.complete rfl rfl
  | turn _ hturn ih => exact ih.turn hturn
  | ended _ hturn ih => exact ih.ended hturn

end Moments

/-- What a rule says of unbound variables is exact, for a rule without a clause and a run at any
moment. If it names none, all frames of its firings have all variables and none is given
up. If it names some, there is one of them for which every frame of every firing is given up, under
the name that the rule has for it, and no invocation of the rule is ever made. Whatever a run gave
up for a variable, a rule of that name said so or has a clause. -/
theorem Rule.unboundVars_exact [RecordKeeper π] (engine : Engine σ) (rule : Rule σ)
    (hclause : rule.clauses.whereClause = none) :
    (rule.unboundVars = [] → ∀ l : Loop σ π, Run.Live engine l → ∀ frames trigger,
      .evaluate rule frames trigger ∈ l.stack →
        (∀ f ∈ frames, ∃ inputs, f.resolveAll rule.clauses.thenPatterns = .ok inputs) ∧
        ∀ p : Progress σ π,
          (step engine (.evaluate rule frames trigger) p).2.run.aborted = p.run.aborted) ∧
    (rule.unboundVars ≠ [] → ∃ v ∈ rule.unboundVars, ∀ l : Loop σ π, Run.Live engine l →
      (∀ frames trigger, .evaluate rule frames trigger ∈ l.stack → ∀ p : Progress σ π,
        (step engine (.evaluate rule frames trigger) p).1 = .ok [] ∧
        (step engine (.evaluate rule frames trigger) p).2.run.aborted = p.run.aborted ++
          frames.map fun _ =>
            ⟨rule.name, trigger.seq, .unboundVariable v (rule.scope.describe v)⟩) ∧
      ∀ action input trigger, .invoke rule action input trigger ∉ l.stack) ∧
    ∀ l : Loop σ π, Run.Live engine l → ∀ branch ∈ l.progress.run.aborted, ∀ v name,
      branch.error = .unboundVariable v name → ∃ other ∈ engine.rules, other.name = branch.rule ∧
        (other.clauses.whereClause = none →
          v ∈ other.unboundVars ∧ name = other.scope.describe v) := by
  refine ⟨fun hempty l hlive frames trigger hqueued => ?_, fun hsome => ?_,
    fun l hlive branch hbranch v name herror => ?_⟩
  · obtain ⟨_, hbinds⟩ := hlive.bound.queued _ hqueued
    have hnone : rule.firstUnbound? = none := firstUnbound?_eq_none_iff.mpr hempty
    exact ⟨fun f hf => resolveAll_of_binds (hbinds f hf) hnone,
      fun p => aborted_of_none hclause hbinds hnone⟩
  · cases hfirst : rule.firstUnbound? with
    | none => exact absurd (firstUnbound?_eq_none_iff.mp hfirst) hsome
    | some v =>
      refine ⟨v, mem_unboundVars_of_first hfirst, fun l hlive =>
        ⟨fun frames trigger hqueued p => ?_, fun action input trigger hqueued => ?_⟩⟩
      · obtain ⟨_, hbinds⟩ := hlive.bound.queued _ hqueued
        exact step_of_first hclause hbinds hfirst
      · exact hsome (hlive.bound.queued _ hqueued hclause)
  · exact hlive.bound.foretold branch hbranch v name herror

def Rule.lacking : Rule Unit :=
  ⟨"Lacking", ⟨[("x", ⟨0⟩), ("y", ⟨1⟩)]⟩, {
    whenPatterns := [(Pattern.of ⟨0⟩).withInput "a" (.var ⟨0⟩)]
    thenPatterns := [((Pattern.of ⟨0⟩).withInput "a" (.var ⟨0⟩)).withInput "b" (.var ⟨1⟩)] }⟩

/-- Beside a rule that needs no variable, a rule with an unbound one gives up its frame. -/
theorem lacking_unboundVars_exact :
    ∃ (l : Loop Unit RecordStore) (trigger : Record),
      Run.Live (.echo [.again, .lacking] {}) l ∧ trigger.seq = 1 ∧
      l.stack = [.evaluate .again [[]] trigger,
        .evaluate .lacking [[(⟨0⟩, .string "v")]] trigger] ∧
      (step (.echo [.again, .lacking] {}) (.evaluate .again [[]] trigger)
        l.progress).2.run.aborted = [] ∧
      (step (.echo [.again, .lacking] {}) (.evaluate .lacking [[(⟨0⟩, .string "v")]] trigger)
        l.progress).2.run.aborted = [⟨"Lacking", 1, .unboundVariable ⟨1⟩ "y"⟩] := by
  let engine : Engine Unit := .echo [.again, .lacking] {}
  obtain ⟨l, hopening⟩ : ∃ l : Loop Unit RecordStore, Run.opening engine ⟨0⟩ [("a", .string "v")]
      (Run.start ⟨(), .empty, 0⟩ none) = some l := ⟨_, rfl⟩
  have hlive : Run.Live engine l := .invoke _ _ (.start _ _) hopening
  obtain ⟨l', trigger, hturn, hseq, hstack, haborted⟩ : ∃ l' trigger, l.turn engine = .inl l' ∧
      trigger.seq = 1 ∧ l'.stack = [.evaluate .again [[]] trigger,
        .evaluate .lacking [[(⟨0⟩, .string "v")]] trigger] ∧ l'.progress.run.aborted = [] := by
    cases hopening
    exact ⟨_, _, rfl, rfl, rfl, rfl⟩
  have hlive' : Run.Live engine l' := hlive.turn hturn
  refine ⟨l', trigger, hlive', hseq, hstack, ?_, ?_⟩
  · obtain ⟨hnone, _⟩ := Rule.unboundVars_exact (π := RecordStore) engine .again rfl
    have hempty : Rule.again.unboundVars = [] := Rule.firstUnbound?_eq_none_iff.mp rfl
    obtain ⟨_, hkept⟩ := hnone hempty l' hlive' [[]] trigger (by simp [hstack])
    exact (hkept l'.progress).trans haborted
  · obtain ⟨_, hsome, _⟩ := Rule.unboundVars_exact (π := RecordStore) engine .lacking rfl
    have hnonempty : Rule.lacking.unboundVars ≠ [] :=
      List.ne_nil_of_mem (Rule.mem_unboundVars_of_first (v := ⟨1⟩) rfl)
    obtain ⟨v, hv, hgiven⟩ := hsome hnonempty
    have hsecond : v = ⟨1⟩ := by
      obtain ⟨hneeded, hfree⟩ := Rule.mem_unboundVars.mp hv
      rcases List.mem_cons.mp hneeded with rfl | hneeded
      · exact absurd (List.mem_singleton.mpr rfl) hfree
      · exact List.mem_singleton.mp hneeded
    subst hsecond
    obtain ⟨_, hends⟩ := (hgiven l' hlive').1 [[(⟨0⟩, .string "v")]] trigger (by simp [hstack])
      l'.progress
    rw [hends, haborted, hseq]
    rfl

end ConceptSync
