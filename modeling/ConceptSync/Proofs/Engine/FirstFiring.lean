import ConceptSync.Proofs.Engine.Loop
import ConceptSync.Proofs.Join.Offer

set_option autoImplicit false
set_option relaxedAutoImplicit false

/-!
The first firing of a run. When every rule before some rule stays idle at the run's first
completion, that rule's invocation is performed, whatever the rules after it do.
-/

namespace ConceptSync

variable {σ π : Type}

/-- A rule that makes no invocation when a completion is the first of its run: no pattern matches
it, more than one pattern is waited for, or the refinement leaves no frame. -/
inductive Rule.Idle (rule : Rule σ) (action : ActionId) (input output : Payload) : Prop
  | unmatched : (∀ p ∈ rule.clauses.whenPatterns, p.unify? action input output = none) →
      Idle rule action input output
  | waiting : 2 ≤ rule.clauses.whenPatterns.length → Idle rule action input output
  | dropped (p : Pattern) : rule.clauses.whenPatterns = [p] →
      (∀ f, p.unify? action input output = some f →
        ∀ world, (refine rule [f] world).1 = .frames []) → Idle rule action input output

namespace Run

variable {run : Run σ} {rule : Rule σ} {action : ActionId} {record : Record}

private theorem length_slots_joinState (hjoins : run.joins = []) (k : Nat) (rule : Rule σ) :
    (run.joinState k rule).slots.length = rule.clauses.whenPatterns.length := by
  simp [joinState, hjoins, JoinState.empty]

private theorem offered_of_idle (hjoins : run.joins = []) (k : Nat)
    (h : rule.Idle action record.input record.output) :
    ((run.offered action record k rule).1.map Joined.frame).isEmpty = true ∨
      ∀ world, (refine rule ((run.offered action record k rule).1.map Joined.frame) world).1 =
        .frames [] := by
  cases h with
  | unmatched hnone =>
    left
    simp [offered, offerSlots_of_no_match hnone]
  | waiting hlength =>
    left
    rw [← length_slots_joinState hjoins k rule] at hlength
    have hself : ∀ s, (run.joinState k rule).Pends s → s = record.seq := by
      intro s hs
      simp only [joinState, hjoins] at hs
      exact absurd hs (JoinState.not_pends_empty _ s)
    simp [offered, offerSlots_of_only_self hlength hself]
  | dropped p hpattern hdrops =>
    have hlength := length_slots_joinState hjoins k rule
    rw [hpattern] at hlength
    cases hunify : p.unify? action record.input record.output with
    | none =>
      left
      simp [offered, hpattern, offerSlots_cons, hunify, offerSlots]
    | some f =>
      right
      simp only [offered, hpattern, offerSlots_of_single hlength hunify]
      exact hdrops f hunify

theorem offered_of_slot {k : Nat} (hlength : (run.joinState k rule).slots.length = 1) {p : Pattern}
    {f : Frame} (hpattern : rule.clauses.whenPatterns = [p])
    (hunify : p.unify? action record.input record.output = some f) :
    (run.offered action record k rule).1.map Joined.frame = [f] := by
  simp only [offered, hpattern, offerSlots_of_single hlength hunify, List.map_cons, List.map_nil]

theorem offered_of_single (hjoins : run.joins = []) (k : Nat) {p : Pattern} {f : Frame}
    (hpattern : rule.clauses.whenPatterns = [p])
    (hunify : p.unify? action record.input record.output = some f) :
    (run.offered action record k rule).1.map Joined.frame = [f] := by
  refine offered_of_slot ?_ hpattern hunify
  rw [length_slots_joinState hjoins k rule, hpattern]
  rfl

private theorem mem_fired {rules : List (Rule σ)} {offered : Nat → Rule σ → List Frame}
    {firing : Rule σ × List Frame}
    (h : firing ∈ (rules.mapIdx fun k rule => (rule, offered k rule)).filter
      fun firing => !firing.2.isEmpty) :
    ∃ k, rules[k]? = some firing.1 ∧ firing.2 ≠ [] ∧ offered k firing.1 = firing.2 := by
  obtain ⟨hmem, hnonempty⟩ := List.mem_filter.mp h
  obtain ⟨k, hk, rfl⟩ := List.mem_mapIdx.mp hmem
  exact ⟨k, List.getElem?_eq_getElem hk, by simpa using hnonempty, rfl⟩

/-- The firings of a completion around those of one rule. -/
theorem firings_around {before : List (Rule σ)} (after : List (Rule σ)) {frames : List Frame}
    (hfires : (run.offered action record before.length rule).1.map Joined.frame = frames)
    (hsome : frames ≠ []) :
    ∃ above below,
      run.firings action record (before ++ rule :: after) = above ++ (rule, frames) :: below ∧
      (∀ firing ∈ above, ∃ k, before[k]? = some firing.1 ∧ firing.2 ≠ [] ∧
        (run.offered action record k firing.1).1.map Joined.frame = firing.2) ∧
      ∀ firing ∈ below, ∃ k, after[k]? = some firing.1 ∧ firing.2 ≠ [] ∧
        (run.offered action record (k + 1 + before.length) firing.1).1.map Joined.frame =
          firing.2 := by
  have hkept : frames.isEmpty = false := by simpa using hsome
  have hat := hfires
  rw [← Nat.zero_add before.length] at hat
  simp only [firings, List.mapIdx_append, List.mapIdx_cons, List.filter_append, List.filter_cons,
    hat, hkept, Bool.not_false, if_true]
  exact ⟨_, _, rfl, fun firing hfiring => mem_fired hfiring, fun firing hfiring => mem_fired hfiring⟩

private theorem firings_of_unwaited {rules : List (Rule σ)}
    (hnone : ∀ rule ∈ rules, ∀ p ∈ rule.clauses.whenPatterns, p.action ≠ action) :
    run.firings action record rules = [] := by
  refine List.filter_eq_nil_iff.mpr fun firing hfiring => ?_
  obtain ⟨k, hk, rfl⟩ := List.mem_mapIdx.mp hfiring
  have hunmatched : ∀ p ∈ rules[k].clauses.whenPatterns,
      p.unify? action record.input record.output = none := fun p hp =>
    if_pos (hnone _ (List.getElem_mem hk) p hp)
  simp [offered, offerSlots_of_no_match hunmatched]

theorem dropped_of_idle {rules : List (Rule σ)} {firing : Rule σ × List Frame}
    (hjoins : run.joins = []) (hfiring : firing ∈ run.firings action record rules)
    (hidle : firing.1.Idle action record.input record.output) :
    ∀ world, (refine firing.1 firing.2 world).1 = .frames [] := by
  obtain ⟨hmem, hsome⟩ := List.mem_filter.mp hfiring
  obtain ⟨k, _, rfl⟩ := List.mem_mapIdx.mp hmem
  refine (offered_of_idle hjoins k hidle).resolve_left fun hempty => ?_
  simp [hempty] at hsome

theorem firings_of_idle {before : List (Rule σ)} (after : List (Rule σ)) {p : Pattern}
    {f : Frame} (hjoins : run.joins = [])
    (hidle : ∀ r ∈ before, r.Idle action record.input record.output)
    (hpattern : rule.clauses.whenPatterns = [p])
    (hunify : p.unify? action record.input record.output = some f) :
    ∃ dropped later, run.firings action record (before ++ rule :: after) =
        dropped ++ (rule, [f]) :: later ∧
      (∀ firing ∈ dropped, ∀ world, (refine firing.1 firing.2 world).1 = .frames []) ∧
      ∀ firing ∈ later, firing.1 ∈ after := by
  obtain ⟨dropped, later, hfirings, habove, hbelow⟩ := firings_around after
    (offered_of_single hjoins before.length hpattern hunify) (by simp)
  refine ⟨dropped, later, hfirings, fun firing hfiring => ?_, fun firing hfiring => ?_⟩
  · obtain ⟨k, hrule, _⟩ := habove firing hfiring
    exact dropped_of_idle hjoins (hfirings ▸ List.mem_append_left _ hfiring)
      (hidle _ (List.mem_of_getElem? hrule))
  · obtain ⟨k, hrule, _⟩ := hbelow firing hfiring
    exact List.mem_of_getElem? hrule

end Run

variable [RecordKeeper π]

theorem step_dropped {rule : Rule σ} {frames : List Frame} {p : Progress σ π}
    (h : (refine rule frames p.stage.world).1 = .frames []) (engine : Engine σ) (record : Record) :
    step engine (.evaluate rule frames record) p =
      (.ok [], p.withWorld (refine rule frames p.stage.world).2) := by
  rcases hrefine : refine rule frames p.stage.world with ⟨refined, world⟩
  rw [hrefine] at h
  simp only [step, evaluateFiring, hrefine]
  rw [show refined = .frames [] from h]

theorem step_invoking {rule : Rule σ} {frames left : List Frame} {first : ActionId × Payload}
    {more : List (ActionId × Payload)} {p : Progress σ π}
    (hrefine : refine rule frames p.stage.world = (.frames left, p.stage.world))
    (hinvocations : left.flatMap rule.invocations = first :: more) (engine : Engine σ)
    (record : Record) :
    ∃ run : Run σ, run.joins = p.run.joins ∧ run.seen = p.run.seen ∧ run.cancel = p.run.cancel ∧
      step engine (.evaluate rule frames record) p =
        (.ok ((first :: more).map fun i => .invoke rule i.1 i.2 record), p.withRun run) := by
  cases left with
  | nil => cases hinvocations
  | cons f rest =>
    rw [evaluate_of_frames hrefine, hinvocations]
    refine ⟨_, ?_, ?_, ?_, rfl⟩ <;> rfl

theorem step_refined {rule : Rule σ} {frames : List Frame} {f : Frame} {invoked : ActionId}
    {input : Payload} {p : Progress σ π}
    (hrefine : refine rule frames p.stage.world = (.frames [f], p.stage.world))
    (hinvocations : rule.invocations f = [(invoked, input)]) (engine : Engine σ)
    (record : Record) :
    ∃ run : Run σ, run.joins = p.run.joins ∧ run.seen = p.run.seen ∧ run.cancel = p.run.cancel ∧
      step engine (.evaluate rule frames record) p =
        (.ok [.invoke rule invoked input record], p.withRun run) := by
  have hsingle : [f].flatMap rule.invocations = [(invoked, input)] := by simp [hinvocations]
  exact step_invoking hrefine hsingle engine record

namespace Loop

theorem turn_of_unwaited {engine : Engine σ} {action : ActionId}
    (hnone : ∀ rule ∈ engine.rules, ∀ p ∈ rule.clauses.whenPatterns, p.action ≠ action)
    (record : Record) (rest : List (Work σ)) {p : Progress σ π} (hcancel : p.run.cancel = none) :
    ∃ run, turn engine ⟨.complete action record :: rest, p⟩ = .inl ⟨rest, p.withRun run⟩ := by
  by_cases hseen : record.id ∈ p.run.seen
  · have hstep : step engine (.complete action record) p = (.ok [], p.withRun p.run) := by
      simp only [step, completeRecord_of_seen action hseen]
    exact ⟨_, turn_of_step (l := ⟨.complete action record :: rest, p⟩) hcancel rfl hstep⟩
  · have hstep : step engine (.complete action record) p =
        (.ok [], p.withRun (p.run.matched action record engine.rules)) := by
      simp only [step, completeRecord_of_unseen action hseen, Run.firings_of_unwaited hnone,
        List.map_nil]
    exact ⟨_, turn_of_step (l := ⟨.complete action record :: rest, p⟩) hcancel rfl hstep⟩

private theorem reaches_past (engine : Engine σ) {dropped : List (Rule σ × List Frame)}
    (hdropped : ∀ firing ∈ dropped, ∀ world, (refine firing.1 firing.2 world).1 = .frames [])
    (record : Record) (rest : List (Work σ)) {p : Progress σ π} (hcancel : p.run.cancel = none) :
    ∃ world, Reaches engine
      ⟨(dropped.map fun firing => .evaluate firing.1 firing.2 record) ++ rest, p⟩
      ⟨rest, p.withWorld world⟩ := by
  induction dropped generalizing p with
  | nil => exact ⟨p.stage.world, .refl⟩
  | cons firing more ih =>
    obtain ⟨hfirst, hmore⟩ := List.forall_mem_cons.mp hdropped
    have hstep := step_dropped (hfirst p.stage.world) engine record
    obtain ⟨last, hreach⟩ :=
      ih hmore (p := p.withWorld (refine firing.1 firing.2 p.stage.world).2) hcancel
    exact ⟨last, .head (turn_of_step hcancel rfl hstep) hreach⟩

variable {engine : Engine σ} {l : Loop σ π} {before after : List (Rule σ)} {rule : Rule σ}
  {p : Pattern} {f : Frame} {action : ActionId} {record : Record}

theorem reaches_invocation {invoked : ActionId} {input : Payload}
    (hrules : engine.rules = before ++ rule :: after)
    (hstack : l.stack = [.complete action record]) (hcancel : l.progress.run.cancel = none)
    (hjoins : l.progress.run.joins = []) (hseen : l.progress.run.seen = [])
    (hidle : ∀ r ∈ before, r.Idle action record.input record.output)
    (hpattern : rule.clauses.whenPatterns = [p])
    (hunify : p.unify? action record.input record.output = some f)
    (hrefine : ∀ world, refine rule [f] world = (.frames [f], world))
    (hinvocations : rule.invocations f = [(invoked, input)]) :
    ∃ (later : List (Rule σ × List Frame)) (q : Progress σ π), Reaches engine l
        ⟨.invoke rule invoked input record ::
          later.map fun firing => .evaluate firing.1 firing.2 record, q⟩ ∧
      q.stage.store = l.progress.stage.store ∧
      q.run.joins = (l.progress.run.matched action record engine.rules).joins ∧
      q.run.seen = [record.id] ∧
      ∀ firing ∈ later, firing ∈ l.progress.run.firings action record engine.rules ∧
        firing.1 ∈ after := by
  have hunseen : record.id ∉ l.progress.run.seen := by simp [hseen]
  obtain ⟨dropped, later, hfirings, hdropped, hafter⟩ :=
    Run.firings_of_idle after hjoins hidle hpattern hunify
  rw [← hrules] at hfirings
  have hmatch : step engine (.complete action record) l.progress =
      (.ok ((dropped ++ (rule, [f]) :: later).map fun firing =>
          .evaluate firing.1 firing.2 record),
        l.progress.withRun (l.progress.run.matched action record engine.rules)) := by
    simp only [step, completeRecord_of_unseen action hunseen, hfirings]
  have hturn := turn_of_step hcancel hstack hmatch
  rw [List.append_nil, List.map_append, List.map_cons] at hturn
  obtain ⟨world, hreach⟩ := reaches_past engine hdropped record
    (.evaluate rule [f] record :: later.map fun firing => .evaluate firing.1 firing.2 record)
    (p := l.progress.withRun (l.progress.run.matched action record engine.rules)) hcancel
  obtain ⟨run, hrunJoins, hrunSeen, _, hevaluate⟩ := step_refined
    (p := (l.progress.withRun (l.progress.run.matched action record engine.rules)).withWorld world)
    (hrefine world) hinvocations engine record
  have hinvoke := turn_of_step
    (l := ⟨.evaluate rule [f] record ::
      later.map fun firing => .evaluate firing.1 firing.2 record,
      (l.progress.withRun (l.progress.run.matched action record engine.rules)).withWorld world⟩)
    hcancel rfl hevaluate
  have hall : Reaches engine l _ := .tail (.head hturn hreach) hinvoke
  refine ⟨later, _, hall, rfl, hrunJoins, hrunSeen.trans (congrArg (record.id :: ·) hseen),
    fun firing hfiring => ⟨?_, hafter _ hfiring⟩⟩
  rw [hfirings]
  exact List.mem_append_right _ (List.mem_cons_of_mem _ hfiring)

theorem performed_of_reaches {invoked : ActionId} {input : Payload} {rest : List (Work σ)}
    {q : Progress σ π} (hreach : Reaches engine l ⟨.invoke rule invoked input record :: rest, q⟩)
    (hgoes : q.run.cancel = none)
    (hallowed : refusal engine (engine.registry.nameOf invoked) input record q.stage.store =
      .ok none) : .performed invoked input q.stage.world ∈ l.activities engine := by
  refine List.mem_flatMap.mpr
    ⟨(.invoke rule invoked input record, q), mem_history.mpr ⟨_, hreach, ?_⟩, ?_⟩
  · simp [next?, Progress.isCancelled, hgoes]
  · simp only [Work.activities, hallowed]
    exact List.mem_singleton_self _

theorem performs_first {invoked : ActionId} {input : Payload}
    (hrules : engine.rules = before ++ rule :: after)
    (hstack : l.stack = [.complete action record]) (hcancel : l.progress.run.cancel = none)
    (hjoins : l.progress.run.joins = []) (hseen : l.progress.run.seen = [])
    (hidle : ∀ r ∈ before, r.Idle action record.input record.output)
    (hpattern : rule.clauses.whenPatterns = [p])
    (hunify : p.unify? action record.input record.output = some f)
    (hrefine : ∀ world, refine rule [f] world = (.frames [f], world))
    (hinvocations : rule.invocations f = [(invoked, input)])
    (hallowed : refusal engine (engine.registry.nameOf invoked) input record
      l.progress.stage.store = .ok none) :
    ∃ world, .performed invoked input world ∈ l.activities engine := by
  obtain ⟨later, q, hreach, hstore, _⟩ := reaches_invocation hrules hstack hcancel hjoins hseen
    hidle hpattern hunify hrefine hinvocations
  have hgoes : q.run.cancel = none := (continues_of_reaches hreach).cancel.trans hcancel
  exact ⟨q.stage.world, performed_of_reaches hreach hgoes (hstore ▸ hallowed)⟩

end Loop

end ConceptSync
