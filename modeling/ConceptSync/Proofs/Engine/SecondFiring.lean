import ConceptSync.Proofs.Engine.Accounting
import ConceptSync.Proofs.Engine.FirstFiring
import ConceptSync.Proofs.Engine.Undisturbed

set_option autoImplicit false
set_option relaxedAutoImplicit false

/-!
The second completion of a run. When the first one leads to an invocation at once, what that
completes is matched next, and fires the rules that wait for both.
-/

namespace ConceptSync

variable {σ : Type}

namespace Run

variable {run : Run σ} {rule : Rule σ} {p q : Pattern} {f g joined : Frame} {action : ActionId}
  {record : Record}

theorem joinState_congr {run' : Run σ} (h : run.joins = run'.joins) (k : Nat) (rule : Rule σ) :
    run.joinState k rule = run'.joinState k rule := by
  simp only [joinState, h]

theorem joinState_of_no_joins (hjoins : run.joins = []) (k : Nat)
    (hpatterns : rule.clauses.whenPatterns = [p, q]) : run.joinState k rule = ⟨[[], []]⟩ := by
  simp [joinState, hjoins, hpatterns, JoinState.empty]

theorem offered_of_neither (k : Nat) (hpatterns : rule.clauses.whenPatterns = [p, q])
    (hp : p.unify? action record.input record.output = none)
    (hq : q.unify? action record.input record.output = none) :
    run.offered action record k rule = ([], run.joinState k rule) := by
  simp [offered, hpatterns, offerSlots, hp, hq]

theorem offered_of_first {k : Nat} (hstate : run.joinState k rule = ⟨[[], []]⟩)
    (hpatterns : rule.clauses.whenPatterns = [p, q])
    (hp : p.unify? action record.input record.output = some f)
    (hq : q.unify? action record.input record.output = none) :
    run.offered action record k rule = ([], ⟨[[⟨record.seq, f⟩], []]⟩) := by
  simp [offered, hstate, hpatterns, offerSlots, hp, hq, JoinState.offer, JoinState.combinations,
    JoinState.extend, JoinState.hold]

theorem offered_of_second {k : Nat} {seq : Int}
    (hstate : run.joinState k rule = ⟨[[⟨seq, f⟩], []]⟩) (hseq : seq ≠ record.seq)
    (hpatterns : rule.clauses.whenPatterns = [p, q])
    (hp : p.unify? action record.input record.output = none)
    (hq : q.unify? action record.input record.output = some g)
    (hmerge : g.merge? f = some joined) :
    (run.offered action record k rule).1.map Joined.frame = [joined] := by
  simp [offered, hstate, hpatterns, offerSlots, hp, hq, JoinState.offer, JoinState.combinations,
    JoinState.extend, JoinState.extendWith?, hseq, hmerge]

end Run

def Loop.afterMatching (engine : Engine σ) (action : ActionId) (record : Record)
    (l : Loop σ RecordStore) : Loop σ RecordStore :=
  ⟨(l.progress.run.firings action record engine.rules).map fun firing =>
      .evaluate firing.1 firing.2 record,
    l.progress.withRun (l.progress.run.matched action record engine.rules)⟩

theorem Loop.turn_of_unseen (engine : Engine σ) {l : Loop σ RecordStore} {action : ActionId}
    {record : Record} {rest : List (Work σ)} (hcancel : l.progress.run.cancel = none)
    (hstack : l.stack = .complete action record :: rest) (hunseen : record.id ∉ l.progress.run.seen) :
    l.turn engine = .inl ⟨(l.afterMatching engine action record).stack ++ rest,
      (l.afterMatching engine action record).progress⟩ :=
  turn_of_step hcancel hstack (by simp only [step, completeRecord_of_unseen action hunseen]; rfl)

theorem Run.Opened.turn {engine : Engine σ} {opening : ActionId} {input : Payload} {root : Record}
    {stage : Stage σ RecordStore} {l : Loop σ RecordStore}
    (h : Opened engine opening input root (start stage none) l) :
    l.turn engine = .inl (l.afterMatching engine opening root) ∧
      l.activities engine = (l.afterMatching engine opening root).activities engine := by
  have hunseen : root.id ∉ l.progress.run.seen := by
    rw [h.run]
    exact List.not_mem_nil
  have hcancel : l.progress.run.cancel = none := by rw [h.run]; rfl
  have hturn := Loop.turn_of_unseen engine hcancel h.stack hunseen
  rw [List.append_nil] at hturn
  refine ⟨hturn, ?_⟩
  obtain ⟨work, rest, next, hstack, hnext, _⟩ := Loop.turn_cases hturn
  rw [h.stack] at hstack
  obtain ⟨rfl, rfl⟩ := List.cons.inj hstack
  rw [Loop.activities_eq_turn, hturn, hnext]
  rfl

variable {engine : Engine σ} {before after : List (Rule σ)} {rule : Rule σ} {p : Pattern}
  {f : Frame} {opening : ActionId} {given : Payload} {root : Record}
  {stage : Stage σ RecordStore} {l : Loop σ RecordStore}

theorem Loop.turn_of_invocation (rule : Rule σ) (rest : List (Work σ)) {action : ActionId}
    {input : Payload} {trigger : Record} {q : Progress σ RecordStore}
    (hstore : q.stage.store.Reachable) (htrigger : trigger ∈ q.records)
    (hgoes : q.run.cancel = none)
    (hallowed : refusal engine (engine.registry.nameOf action) input trigger q.stage.store =
      .ok none)
    (hcompletes : engine.registry.Completes (engine.registry.nameOf action)) :
    ∃ child after, step engine (.invoke rule action input trigger) q =
        (.ok [.complete action child], after) ∧
      Loop.turn engine ⟨.invoke rule action input trigger :: rest, q⟩ =
        .inl ⟨.complete action child :: rest, after⟩ ∧
      Kept engine action input trigger child q after := by
  have hdispatched := Progress.dispatched engine rule action input hstore htrigger
  rcases hstep : step engine (.invoke rule action input trigger) q with ⟨result, after⟩
  rw [hstep] at hdispatched
  obtain ⟨_, _, hperform⟩ := hcompletes action input q.stage.world rfl
  cases hdispatched with
  | refused error hrefused => cases hallowed.symm.trans hrefused
  | failed failure world error hfailed => cases hperform.symm.trans hfailed
  | broken b world hbroken => cases hperform.symm.trans hbroken
  | @kept child _ hkept =>
    exact ⟨child, after, rfl, turn_of_step (l := ⟨_, q⟩) hgoes rfl hstep, hkept⟩

theorem Loop.reaches_second {action : ActionId} {input : Payload}
    (hcourse : Run.Course engine False [] l)
    (hopening : Run.opening engine opening given (Run.start stage none) = some l)
    (hopened : Run.Opened engine opening given root (Run.start stage none) l)
    (hrecords : l.progress.records = [root]) (hrules : engine.rules = before ++ rule :: after)
    (hidle : ∀ r ∈ before, r.Idle opening root.input root.output)
    (hpattern : rule.clauses.whenPatterns = [p])
    (hunify : p.unify? opening root.input root.output = some f)
    (hrefine : ∀ world, refine rule [f] world = (.frames [f], world))
    (hinvocations : rule.invocations f = [(action, input)])
    (hallowed : refusal engine (engine.registry.nameOf action) input root
      l.progress.stage.store = .ok none)
    (hcompletes : engine.registry.Completes (engine.registry.nameOf action)) :
    ∃ (child : Record) (later : List (Rule σ × List Frame)) (q : Progress σ RecordStore),
      Reaches engine l ⟨.complete action child ::
        later.map fun firing => .evaluate firing.1 firing.2 root, q⟩ ∧
      q.records = [root, child] ∧ child.action = engine.registry.nameOf action ∧
      child.input = input ∧ child.ChildOf root ∧ root.seq < child.seq ∧
      (∃ world, .performed action input world ∈ l.activities engine ∧
        engine.registry.perform action input world = (.ok child.output, q.stage.world)) ∧
      child.id ∉ q.run.seen ∧
      q.run.joins = (l.progress.run.matched opening root engine.rules).joins ∧
      ∀ firing ∈ later, firing ∈ l.progress.run.firings opening root engine.rules ∧
        firing.1 ∈ after := by
  have hrun := hopened.run
  have hcancel : l.progress.run.cancel = none := by rw [hrun]; rfl
  obtain ⟨later, q, hreach, hstore, hjoins, -, hlater⟩ := reaches_invocation hrules
    hopened.stack hcancel (by rw [hrun]; rfl) (by rw [hrun]; rfl) hidle hpattern hunify hrefine
    hinvocations
  have hcontinues := continues_of_reaches hreach
  have hsame : q.records = [root] := by
    rw [← hrecords, Progress.records, Progress.records, hstore, hcontinues.id]
  have hmem : root ∈ q.records := by simp [hsame]
  have hgoes := hcontinues.cancel.trans hcancel
  obtain ⟨child, after, hstep, hturn, hkept⟩ := turn_of_invocation rule
    (later.map fun firing => .evaluate firing.1 firing.2 root) (hstore ▸ hcourse.reachable)
    hmem hgoes (hstore ▸ hallowed) hcompletes
  have hperformed := performed_of_reaches hreach hgoes hkept.allowed
  have hlatest := hkept.latest root (by simp [hsame])
  obtain ⟨_, hreached⟩ := hcourse.reaches hreach
  have hbegun := Loop.Undisturbed.opening hopening hopened.stack hrecords
  have hundisturbed := hbegun.reaches hcourse hreach
  refine ⟨child, later, after, .tail hreach hturn, by rw [hkept.records, hsame]; rfl,
    hkept.action, hkept.input, hkept.childOf, hlatest, ⟨_, hperformed, hkept.performed⟩,
    ?_, ?_, hlater⟩
  · exact hundisturbed.unseen hreached (by simp [hsame, Uuid.supply]) hstep hkept
  · rw [hkept.run, hjoins]

end ConceptSync
