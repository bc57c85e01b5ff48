import ConceptSync.Proofs.Engine.Twins
import ConceptSync.Proofs.Join.Renumbering
import ConceptSync.Proofs.Store.Identifiers

set_option autoImplicit false
set_option relaxedAutoImplicit false

/-!
One run in two executions: in a store that it shares with other runs and in a store of its own. If
concepts and refinements answer as functions of their inputs alone, each piece of work comes to the
same in both, up to the numbering of the records.
-/

namespace ConceptSync

variable {σ : Type}

/-- Actions and refinements answer as functions of their inputs, in whatever world. -/
structure Engine.Pure (engine : Engine σ) : Prop where
  performs : ∀ action input world world',
    (engine.registry.perform action input world).1 =
      (engine.registry.perform action input world').1
  refines : ∀ rule ∈ engine.rules, ∀ clause ∈ rule.clauses.whereClause, ∀ frames world world',
    (clause frames world).1 = (clause frames world').1

private theorem Engine.Pure.refine_eq {engine : Engine σ} (h : engine.Pure) {rule : Rule σ}
    (hrule : rule ∈ engine.rules) (frames : List Frame) (world world' : σ) :
    (refine rule frames world).1 = (refine rule frames world').1 :=
  (refine_congr (fun _ => ()) rfl fun clause hclause =>
    ⟨h.refines rule hrule clause hclause frames world world', rfl⟩).1

structure AbortedBranch.Alike (R : Int → Int → Prop) (a a' : AbortedBranch) : Prop where
  rule : a.rule = a'.rule
  trigger : R a.trigger a'.trigger
  error : a.error = a'.error

/-- A run in two executions that nobody can cancel. -/
structure Run.Alike (ts : Twins) (run run' : Run σ) : Prop where
  joins : List.Forall₂ (JoinState.Alike (ts.Names Record.seq)) run.joins run'.joins
  seen : List.Forall₂ (ts.Names Record.id) run.seen run'.seen
  aborted : List.Forall₂ (AbortedBranch.Alike (ts.Names Record.seq)) run.aborted run'.aborted
  fired : run.fired = run'.fired
  cancelled : run.cancelled = run'.cancelled
  unflagged : run.cancel = none
  unflagged' : run'.cancel = none

/-- The same piece of work on twins. -/
inductive Work.Alike (engine : Engine σ) (ts : Twins) : Work σ → Work σ → Prop
  | complete (action : ActionId) {t : Record × Record} : t ∈ ts →
      Alike engine ts (.complete action t.1) (.complete action t.2)
  | evaluate {rule : Rule σ} (frames : List Frame) {t : Record × Record} : rule ∈ engine.rules →
      t ∈ ts → Alike engine ts (.evaluate rule frames t.1) (.evaluate rule frames t.2)
  | invoke (rule : Rule σ) (action : ActionId) (input : Payload) {t : Record × Record} : t ∈ ts →
      Alike engine ts (.invoke rule action input t.1) (.invoke rule action input t.2)

/-- A run and what it acts on in two executions: its records are twins. The second store issued no
more numbers than the first. -/
structure Progress.Alike (ts : Twins) (p p' : Progress σ RecordStore) : Prop where
  grown : ts.Grown
  records : ts.map Prod.fst = p.records
  records' : ts.map Prod.snd = p'.records
  latest : p'.stage.store.latest ≤ p.stage.store.latest
  run : p.run.Alike ts p'.run

/-- How a piece of work ends in two executions. -/
inductive Stepped (engine : Engine σ) (ts : Twins) :
    Except Halt (List (Work σ)) × Progress σ RecordStore →
    Except Halt (List (Work σ)) × Progress σ RecordStore → Prop
  | goes {next next' : List (Work σ)} {q q' : Progress σ RecordStore} :
      List.Forall₂ (Work.Alike engine ts) next next' → q.Alike ts q' →
      Stepped engine ts (.ok next, q) (.ok next', q')
  | halts {halt halt' : Halt} {q q' : Progress σ RecordStore} : q.Alike ts q' →
      Stepped engine ts (.error halt, q) (.error halt', q')

theorem Work.Alike.mono {engine : Engine σ} {ts more : Twins} (hsub : ∀ t ∈ ts, t ∈ more)
    {work work' : Work σ} (h : work.Alike engine ts work') : work.Alike engine more work' := by
  cases h with
  | complete action ht => exact .complete action (hsub _ ht)
  | evaluate frames hrule ht => exact .evaluate frames hrule (hsub _ ht)
  | invoke rule action input ht => exact .invoke rule action input (hsub _ ht)

namespace Run.Alike

variable {ts : Twins} {run run' : Run σ}

private theorem mono {more : Twins} (hsub : ∀ t ∈ ts, t ∈ more) (h : run.Alike ts run') :
    run.Alike more run' where
  joins := h.joins.imp fun _ _ => JoinState.Alike.mono fun _ _ => Twins.Names.mono hsub
  seen := h.seen.imp fun _ _ => Twins.Names.mono hsub
  aborted := h.aborted.imp fun _ _ ha => { ha with trigger := ha.trigger.mono hsub }
  fired := h.fired
  cancelled := h.cancelled
  unflagged := h.unflagged
  unflagged' := h.unflagged'

private theorem abort (h : run.Alike ts run') (rule : Rule σ) {t : Record × Record} (ht : t ∈ ts)
    (error : EngineError) : (run.abort rule t.1 error).Alike ts (run'.abort rule t.2 error) :=
  { h with
    aborted := List.rel_append h.aborted (.cons ⟨rfl, Twins.names_of_mem ht, rfl⟩ .nil) }

private theorem joinState_alike (h : run.Alike ts run') (k : Nat) (rule : Rule σ) :
    (run.joinState k rule).Alike (ts.Names Record.seq) (run'.joinState k rule) := by
  unfold joinState
  have hlength := h.joins.length_eq
  by_cases hk : k < run.joins.length
  · rw [List.getElem?_eq_getElem hk, List.getElem?_eq_getElem (hlength ▸ hk)]
    exact h.joins.get hk (hlength ▸ hk)
  · rw [List.getElem?_eq_none (by omega), List.getElem?_eq_none (by omega)]
    exact JoinState.alike_empty _ _

private theorem offered_alike (h : run.Alike ts run') (hgrown : ts.Grown) (action : ActionId)
    {t : Record × Record} (ht : t ∈ ts) (k : Nat) (rule : Rule σ) :
    (run.offered action t.1 k rule).1.map Joined.frame =
      (run'.offered action t.2 k rule).1.map Joined.frame ∧
    (run.offered action t.1 k rule).2.Alike (ts.Names Record.seq)
      (run'.offered action t.2 k rule).2 := by
  have halike := hgrown.alike t ht
  obtain ⟨hjoined, hpending⟩ := offerSlots_alike hgrown.biUnique action
    (Twins.names_of_mem ht) halike.input halike.output 0 rule.clauses.whenPatterns
    (h.joinState_alike k rule)
  exact ⟨Joined.map_frame_of_alike hjoined, hpending⟩

private theorem firings_eq (h : run.Alike ts run') (hgrown : ts.Grown) (action : ActionId)
    {t : Record × Record} (ht : t ∈ ts) (rules : List (Rule σ)) :
    run.firings action t.1 rules = run'.firings action t.2 rules := by
  simp only [firings, fun k rule => (h.offered_alike hgrown action ht k rule).1]

private theorem matched_alike (h : run.Alike ts run') (hgrown : ts.Grown) (action : ActionId)
    {t : Record × Record} (ht : t ∈ ts) (rules : List (Rule σ)) :
    (run.matched action t.1 rules).Alike ts (run'.matched action t.2 rules) :=
  { h with
    joins := List.forall₂_iff_get.mpr ⟨by simp [matched], fun k hk hk' => by
      simpa [matched] using (h.offered_alike hgrown action ht k _).2⟩
    seen := .cons (Twins.names_of_mem ht) h.seen }

end Run.Alike

private theorem Run.rule_of_firing {run : Run σ} {action : ActionId} {record : Record}
    {rules : List (Rule σ)} {firing : Rule σ × List Frame}
    (h : firing ∈ run.firings action record rules) : firing.1 ∈ rules := by
  obtain ⟨k, hk, rfl⟩ := List.mem_mapIdx.mp (List.mem_filter.mp h).1
  exact List.getElem_mem hk

section

variable {engine : Engine σ} {ts : Twins} {p p' : Progress σ RecordStore} {t : Record × Record}

private theorem forall₂_map_alike {α : Type} {f g : α → Work σ} {as : List α}
    (h : ∀ a ∈ as, (f a).Alike engine ts (g a)) :
    List.Forall₂ (Work.Alike engine ts) (as.map f) (as.map g) := by
  rw [List.forall₂_map_left_iff, List.forall₂_map_right_iff]
  exact List.forall₂_same.mpr h

private theorem stepped_complete (h : p.Alike ts p')
    (hids : Relator.BiUnique (ts.Names Record.id)) (action : ActionId) (ht : t ∈ ts) :
    Stepped engine ts (step engine (.complete action t.1) p)
      (step engine (.complete action t.2) p') := by
  have hseen : t.1.id ∈ p.run.seen ↔ t.2.id ∈ p'.run.seen :=
    List.rel_mem hids (Twins.names_of_mem ht) h.run.seen
  by_cases hfirst : t.1.id ∈ p.run.seen
  · simp only [step, completeRecord_of_seen action hfirst,
      completeRecord_of_seen action (hseen.mp hfirst)]
    exact .goes .nil { h with run := h.run }
  · simp only [step, completeRecord_of_unseen action hfirst,
      completeRecord_of_unseen action (mt hseen.mpr hfirst), h.run.firings_eq h.grown action ht]
    refine .goes (forall₂_map_alike fun firing hfiring => ?_)
      { h with run := h.run.matched_alike h.grown action ht engine.rules }
    exact .evaluate firing.2 (Run.rule_of_firing hfiring) ht

private theorem abandoned_alike (rule : Rule σ) (ht : t ∈ ts) (frames : List Frame) :
    List.Forall₂ (AbortedBranch.Alike (ts.Names Record.seq))
      (frames.flatMap (rule.abandoned t.1)) (frames.flatMap (rule.abandoned t.2)) := by
  refine List.rel_flatMap (List.forall₂_same.mpr fun _ _ => rfl) fun f g hfg => ?_
  subst hfg
  unfold Rule.abandoned
  cases f.resolveAll rule.clauses.thenPatterns with
  | ok _ => exact .nil
  | error e => exact .cons ⟨rfl, Twins.names_of_mem ht, rfl⟩ .nil

private theorem stepped_evaluate (hpure : engine.Pure) (h : p.Alike ts p') {rule : Rule σ}
    (hrule : rule ∈ engine.rules) (frames : List Frame) (ht : t ∈ ts) :
    Stepped engine ts (step engine (.evaluate rule frames t.1) p)
      (step engine (.evaluate rule frames t.2) p') := by
  have hanswer := hpure.refine_eq hrule frames p.stage.world p'.stage.world
  rcases hfirst : refine rule frames p.stage.world with ⟨refined, world⟩
  rcases hsecond : refine rule frames p'.stage.world with ⟨refined', world'⟩
  rw [hfirst, hsecond] at hanswer
  cases hanswer
  simp only [step, evaluateFiring, hfirst, hsecond]
  cases refined with
  | broken b => exact .halts { h with run := h.run }
  | error e => exact .goes .nil { h with run := h.run.abort rule ht e }
  | frames left =>
    cases left with
    | nil => exact .goes .nil { h with run := h.run }
    | cons f rest =>
      simp only [resolveFrames_eq_flatMap]
      refine .goes (forall₂_map_alike fun i _ => .invoke rule i.1 i.2 ht)
        { h with run := { h.run with
          aborted := List.rel_append h.run.aborted (abandoned_alike rule ht (f :: rest))
          fired := ?_ } }
      simp only [Progress.withRun, h.run.fired]

theorem Progress.Alike.grow (h : p.Alike ts p') {q q' : Progress σ RecordStore}
    {r r' : Record} (hrun : q.run = p.run) (hrun' : q'.run = p'.run)
    (hrecords : q.records = p.records ++ [r]) (hrecords' : q'.records = p'.records ++ [r'])
    (hgrown : Grown q.records) (hgrown' : Grown q'.records)
    (halike : r.Alike (ts.Names Record.seq) r')
    (hlatest : q'.stage.store.latest ≤ q.stage.store.latest) :
    q.Alike (ts ++ [(r, r')]) q' := by
  rw [hrecords, ← h.records] at hgrown
  rw [hrecords', ← h.records'] at hgrown'
  refine ⟨h.grown.snoc hgrown hgrown' halike, ?_, ?_, hlatest, ?_⟩
  · simp [hrecords, h.records]
  · simp [hrecords', h.records']
  · rw [hrun, hrun']
    exact h.run.mono fun t ht => List.mem_append_left _ ht

private theorem step_of_allowed (rule : Rule σ) {action : ActionId} {input output : Payload}
    {trigger : Record} (hstore : p.stage.store.Reachable) (htrigger : trigger ∈ p.records)
    (hallowed : refusal engine (engine.registry.nameOf action) input trigger p.stage.store =
      .ok none) (hperform : (engine.registry.perform action input p.stage.world).1 = .ok output) :
    ∃ child q, step engine (.invoke rule action input trigger) p =
        (.ok [.complete action child], q) ∧
      Kept engine action input trigger child p q ∧ child.output = output ∧
      q.stage.store.latest = p.stage.store.latest + 1 := by
  have hdispatched := Progress.dispatched engine rule action input hstore htrigger
  have hkeeper := keeper_step engine (.invoke rule action input trigger) p
  generalize step engine (.invoke rule action input trigger) p = stepped at hdispatched hkeeper
  cases hdispatched with
  | refused error hrefused => cases hallowed.symm.trans hrefused
  | failed failure world error hfailed =>
    rw [hfailed] at hperform
    cases hperform
  | broken b world hbroken =>
    rw [hbroken] at hperform
    cases hperform
  | @kept child q hkept =>
    refine ⟨child, q, rfl, hkept, ?_, ?_⟩
    · rw [hkept.performed] at hperform
      exact Outcome.ok.inj hperform
    · rcases hkeeper with ⟨_, hsame⟩ | ⟨_, _, _, _, _, _, draft, hwork, _, _, _, hstored, hnext⟩
      · exact absurd rfl ((hsame _ rfl (.complete action child) (by simp)).2 action child)
      · cases hwork
        obtain ⟨record, hkeep, _⟩ := hnext _ rfl
        have hadded : (p.stage.store.appendChild trigger.seq draft).2 = q.stage.store := hstored
        have hkeep := RecordStore.appendChild_of_persistChild hkeep
        exact (RecordStore.seq_appendChild (Prod.ext hkeep hadded)).2

private theorem stepped_performed (h : p.Alike ts p') (hstore : p.stage.store.Reachable)
    (hstore' : p'.stage.store.Reachable) (rule : Rule σ) {action : ActionId}
    {input output : Payload} (ht : t ∈ ts)
    (hallowed : refusal engine (engine.registry.nameOf action) input t.1 p.stage.store = .ok none)
    (hallowed' : refusal engine (engine.registry.nameOf action) input t.2 p'.stage.store =
      .ok none)
    (hperform : (engine.registry.perform action input p.stage.world).1 = .ok output)
    (hperform' : (engine.registry.perform action input p'.stage.world).1 = .ok output) :
    ∃ new, Stepped engine (ts ++ new) (step engine (.invoke rule action input t.1) p)
      (step engine (.invoke rule action input t.2) p') := by
  have htrigger : t.1 ∈ p.records := h.records ▸ List.mem_map_of_mem ht
  have htrigger' : t.2 ∈ p'.records := h.records' ▸ List.mem_map_of_mem ht
  obtain ⟨child, q, hstep, hkept, houtput, hlatest⟩ :=
    step_of_allowed rule hstore htrigger hallowed hperform
  obtain ⟨child', q', hstep', hkept', houtput', hlatest'⟩ :=
    step_of_allowed rule hstore' htrigger' hallowed' hperform'
  rw [hstep, hstep']
  have halike : child.Alike (ts.Names Record.seq) child' :=
    (h.grown.alike t ht).child (Twins.names_of_mem ht) hkept.childOf hkept'.childOf
      (hkept.action.trans hkept'.action.symm) (hkept.input.trans hkept'.input.symm)
      (houtput.trans houtput'.symm)
  have hgrown : Grown q.records := hkept.records ▸
    (h.records ▸ h.grown.first).child hkept.latest htrigger hkept.childOf
  have hgrown' : Grown q'.records := hkept'.records ▸
    (h.records' ▸ h.grown.second).child hkept'.latest htrigger' hkept'.childOf
  have hbefore := h.latest
  refine ⟨[(child, child')], .goes (.cons (.complete action (t := (child, child')) ?_) .nil)
    (h.grow hkept.run hkept'.run hkept.records hkept'.records hgrown hgrown' halike ?_)⟩
  · simp
  · omega

private theorem stepped_invoke (hpure : engine.Pure) (h : p.Alike ts p')
    (hstore : p.stage.store.Reachable) (hstore' : p'.stage.store.Reachable) (rule : Rule σ)
    (action : ActionId) (input : Payload) (ht : t ∈ ts) :
    ∃ new, Stepped engine (ts ++ new) (step engine (.invoke rule action input t.1) p)
      (step engine (.invoke rule action input t.2) p') := by
  have hrefusal := h.grown.refusal_eq h.records h.records' hstore hstore' ht engine
    (engine.registry.nameOf action) input
  rcases hrefused : refusal engine (engine.registry.nameOf action) input t.2 p'.stage.store with
    failure | _ | error
  · rw [hrefused] at hrefusal
    simp only [step, dispatch, hrefusal, hrefused]
    exact ⟨[], by simpa using .halts h⟩
  · rw [hrefused] at hrefusal
    have hanswer := hpure.performs action input p.stage.world p'.stage.world
    rcases hfirst : engine.registry.perform action input p.stage.world with ⟨outcome, world⟩
    rcases hsecond : engine.registry.perform action input p'.stage.world with ⟨outcome', world'⟩
    rw [hfirst, hsecond] at hanswer
    cases hanswer
    cases outcome with
    | broken b =>
      simp only [step, dispatch, performInvocation, hrefusal, hrefused, hfirst, hsecond]
      exact ⟨[], by simpa using .halts { h with run := h.run }⟩
    | failed failure =>
      simp only [step, dispatch, performInvocation, hrefusal, hrefused, hfirst, hsecond]
      exact ⟨[], by simpa using .goes .nil { h with run := h.run.abort rule ht _ }⟩
    | ok output =>
      exact stepped_performed h hstore hstore' rule ht hrefusal hrefused (congrArg Prod.fst hfirst)
        (congrArg Prod.fst hsecond)
  · rw [hrefused] at hrefusal
    simp only [step, dispatch, hrefusal, hrefused]
    exact ⟨[], by simpa using .goes .nil { h with run := h.run.abort rule ht error }⟩

theorem stepped_of_alike (hpure : engine.Pure) (h : p.Alike ts p')
    (hstore : p.stage.store.Reachable) (hstore' : p'.stage.store.Reachable)
    (hsupply : p.stage.store.latest < Uuid.supply) {work work' : Work σ}
    (hwork : work.Alike engine ts work') :
    ∃ new, Stepped engine (ts ++ new) (step engine work p) (step engine work' p') := by
  cases hwork with
  | complete action ht =>
    have hsub : p.records.Sublist p.stage.store.records := List.filter_sublist
    have hsub' : p'.records.Sublist p'.stage.store.records := List.filter_sublist
    have hids : Relator.BiUnique (ts.Names Record.id) := Twins.biUnique_names
      (h.records ▸ (hstore.nodup_ids hsupply).sublist (hsub.map _))
      (h.records' ▸ (hstore'.nodup_ids (Nat.lt_of_le_of_lt h.latest hsupply)).sublist (hsub'.map _))
    exact ⟨[], by simpa using stepped_complete h hids action ht⟩
  | evaluate frames hrule ht => exact ⟨[], by simpa using stepped_evaluate hpure h hrule frames ht⟩
  | invoke rule action input ht =>
    exact stepped_invoke hpure h hstore hstore' rule action input ht

end

end ConceptSync
