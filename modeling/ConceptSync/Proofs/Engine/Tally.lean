import Mathlib.Data.List.FinRange
import Mathlib.Data.List.Forall2
import Mathlib.Data.List.Indexes
import ConceptSync.Proofs.Engine.Handing
import ConceptSync.Proofs.Engine.Unbound

set_option autoImplicit false
set_option relaxedAutoImplicit false

/-!
What the count of firings counts. Each rule is evaluated at most once at each completion, and the
evaluations that are left frames are counted; whether any of these frames has all variables, so that
there is something to dispatch, makes no difference to the count.
-/

namespace ConceptSync

variable {σ π : Type}

def Refined.left : Refined → List Frame
  | .frames left => left
  | _ => []

/-- A rule that was evaluated at a completion: the frames that its clause left, and the work that
was handed on to be dispatched. -/
structure Firing (σ : Type) where
  rule : Rule σ
  trigger : Record
  left : List Frame
  handed : List (Work σ)

namespace Firing

def isLeftFrames (f : Firing σ) : Bool := !f.left.isEmpty

def dispatches (f : Firing σ) : Bool := !f.handed.isEmpty

def Idles (f : Firing σ) : Prop :=
  f.left ≠ [] ∧ (f.rule.clauses.thenPatterns = [] ∨
    ∀ g ∈ f.left, ∃ e, g.resolveAll f.rule.clauses.thenPatterns = .error e)

def mark (f : Firing σ) : Rule σ × Record := (f.rule, f.trigger)

end Firing

def Engine.At (engine : Engine σ) (mark : Rule σ × Record) (pair : Nat × Uuid) : Prop :=
  engine.rules[pair.1]? = some mark.1 ∧ mark.2.id = pair.2

def Work.mark? : Work σ → Option (Rule σ × Record)
  | .evaluate rule _ trigger => some (rule, trigger)
  | _ => none

private theorem Frame.resolveAll_eq_nil_iff {f : Frame} {patterns : List Pattern}
    {inputs : List (ActionId × Payload)} (h : f.resolveAll patterns = .ok inputs) :
    inputs = [] ↔ patterns = [] := by
  cases patterns with
  | nil =>
    cases h
    simp
  | cons p rest =>
    simp only [resolveAll] at h
    split at h
    · cases h
    · split at h
      · cases h
      · cases h
        simp

private theorem Rule.invocations_eq_nil_iff {rule : Rule σ} {f : Frame} : rule.invocations f = [] ↔
    rule.clauses.thenPatterns = [] ∨
      ∃ e, f.resolveAll rule.clauses.thenPatterns = .error e := by
  unfold invocations
  cases hresolve : f.resolveAll rule.clauses.thenPatterns with
  | error e => simp
  | ok inputs => simp [Frame.resolveAll_eq_nil_iff hresolve]

private theorem exists_of_forall₂_append {α β : Type} {R : α → β → Prop} {as as' : List α}
    {bs : List β} (h : List.Forall₂ R (as ++ as') bs) :
    ∃ cs cs', bs = cs ++ cs' ∧ List.Forall₂ R as cs ∧ List.Forall₂ R as' cs' := by
  induction as generalizing bs with
  | nil => exact ⟨[], bs, rfl, .nil, h⟩
  | cons a as ih =>
    cases h with
    | cons hhead htail =>
      obtain ⟨cs, cs', rfl, hcs, hcs'⟩ := ih htail
      exact ⟨_ :: cs, cs', rfl, .cons hhead hcs, hcs'⟩

private theorem countP_eq_countP_iff {α : Type} {p q : α → Bool} {l : List α}
    (himp : ∀ a ∈ l, q a = true → p a = true) :
    l.countP p = l.countP q ↔ ∀ a ∈ l, p a = true → q a = true := by
  induction l with
  | nil => simp
  | cons a l ih =>
    obtain ⟨ha, hl⟩ := List.forall_mem_cons.mp himp
    have hle : l.countP q ≤ l.countP p := List.countP_mono_left hl
    rw [List.forall_mem_cons, ← ih hl]
    by_cases hp : p a = true
    · by_cases hq : q a = true
      · rw [List.countP_cons_of_pos hp, List.countP_cons_of_pos hq]
        simp [hp, hq]
      · rw [List.countP_cons_of_pos hp, List.countP_cons_of_neg hq]
        exact ⟨fun heq => absurd heq (by omega), fun hboth => absurd (hboth.1 hp) hq⟩
    · rw [List.countP_cons_of_neg hp, List.countP_cons_of_neg (mt ha hp)]
      simp [hp]

section Keeper

variable [RecordKeeper π] {engine : Engine σ}

def Work.firing? (engine : Engine σ) (p : Progress σ π) : Work σ → Option (Firing σ)
  | .evaluate rule frames trigger => some {
      rule
      trigger
      left := (refine rule frames p.stage.world).1.left
      handed := (step engine (.evaluate rule frames trigger) p).1.toOption.getD [] }
  | _ => none

def Loop.firing? (engine : Engine σ) (l : Loop σ π) : Option (Firing σ) :=
  l.next?.bind fun done => done.1.firing? engine done.2

/-- A run at any moment from its start on, whoever keeps its records, with the firings so far:
callers invoke actions in it and deliver what they like to it, and between two turns anything may
happen to the stage. -/
inductive Run.Tally (engine : Engine σ) : List (Firing σ) → Loop σ π → Prop
  | start (stage : Stage σ π) (cancel : Option (σ → Bool)) :
      Tally engine [] ⟨[], start stage cancel⟩
  | meanwhile {fs : List (Firing σ)} {stack : List (Work σ)} {p : Progress σ π}
      (stage : Stage σ π) : Tally engine fs ⟨stack, p⟩ → Tally engine fs ⟨stack, ⟨p.run, stage⟩⟩
  | invoke {fs : List (Firing σ)} {p : Progress σ π} {l : Loop σ π} (action : ActionId)
      (input : Payload) : Tally engine fs ⟨[], p⟩ → opening engine action input p = some l →
      Tally engine fs l
  | deliver {fs : List (Firing σ)} {p : Progress σ π} {l : Loop σ π} (record : Record) :
      Tally engine fs ⟨[], p⟩ → redelivery engine record p = some l → Tally engine fs l
  | turn {fs : List (Firing σ)} {l l' : Loop σ π} : Tally engine fs l →
      l.turn engine = .inl l' → Tally engine (fs ++ (l.firing? engine).toList) l'
  | ended {fs : List (Firing σ)} {l : Loop σ π} {result : Except Halt Unit} {p : Progress σ π} :
      Tally engine fs l → l.turn engine = .inr (result, p) →
      Tally engine (fs ++ (l.firing? engine).toList) ⟨[], p⟩

private theorem step_evaluate (engine : Engine σ) (rule : Rule σ) (frames : List Frame)
    (trigger : Record) (p : Progress σ π) {left : List Frame}
    (hleft : (refine rule frames p.stage.world).1.left = left) :
    (step engine (.evaluate rule frames trigger) p).1.toOption.getD [] =
        (left.flatMap rule.invocations).map (fun i => .invoke rule i.1 i.2 trigger) ∧
      (step engine (.evaluate rule frames trigger) p).2.run.fired =
        p.run.fired + if left.isEmpty then 0 else 1 := by
  rcases hrefine : refine rule frames p.stage.world with ⟨refined, world⟩
  rw [hrefine] at hleft
  cases refined with
  | frames kept =>
    obtain rfl : kept = left := hleft
    cases kept with
    | nil => rw [evaluate_of_no_frames hrefine]; exact ⟨rfl, rfl⟩
    | cons g rest => rw [evaluate_of_frames hrefine]; exact ⟨rfl, rfl⟩
  | error e =>
    obtain rfl : [] = left := hleft
    rw [evaluate_of_error hrefine]
    exact ⟨rfl, rfl⟩
  | broken b =>
    obtain rfl : [] = left := hleft
    rw [evaluate_of_broken hrefine]
    exact ⟨rfl, rfl⟩

private theorem Work.handed_of_firing {p : Progress σ π} {work : Work σ} {f : Firing σ}
    (h : work.firing? engine p = some f) :
    f.handed = (f.left.flatMap f.rule.invocations).map
      fun i => .invoke f.rule i.1 i.2 f.trigger := by
  cases work with
  | complete action record => cases h
  | invoke rule action input trigger => cases h
  | evaluate rule frames trigger =>
    obtain rfl := Option.some.inj h
    exact (step_evaluate engine rule frames trigger p rfl).1

private theorem Work.dispatches_iff {p : Progress σ π} {work : Work σ} {f : Firing σ}
    (h : work.firing? engine p = some f) :
    f.dispatches = true ↔ f.isLeftFrames = true ∧ ¬f.Idles := by
  have hnone : f.handed = [] ↔ f.left = [] ∨ f.Idles := by
    rw [handed_of_firing h, List.map_eq_nil_iff, List.flatMap_eq_nil_iff]
    simp only [Rule.invocations_eq_nil_iff, Firing.Idles]
    by_cases hleft : f.left = []
    · simp [hleft]
    · by_cases hthen : f.rule.clauses.thenPatterns = [] <;> simp [hleft, hthen]
  simp [Firing.dispatches, Firing.isLeftFrames, hnone]

private theorem fired_step (engine : Engine σ) (work : Work σ) (p : Progress σ π) :
    (step engine work p).2.run.fired =
      p.run.fired + (work.firing? engine p).toList.countP Firing.isLeftFrames := by
  cases work with
  | complete action record =>
    simp only [step, completeRecord]
    split <;> rfl
  | evaluate rule frames trigger =>
    rw [(step_evaluate engine rule frames trigger p rfl).2]
    simp only [Work.firing?, Option.toList_some, List.countP_singleton, Firing.isLeftFrames,
      Bool.not_eq_true', ← Bool.not_eq_true, ite_not]
  | invoke rule action input trigger =>
    simp only [step, dispatch]
    split
    · rfl
    · rfl
    · simp only [performInvocation]
      split
      · rfl
      · rfl
      · split <;> rfl

def Loop.marks (fs : List (Firing σ)) (l : Loop σ π) : List (Rule σ × Record) :=
  fs.map Firing.mark ++ l.stack.filterMap Work.mark?

def Loop.Distinct (engine : Engine σ) (fs : List (Firing σ)) (l : Loop σ π) : Prop :=
  ∃ pairs : List (Nat × Uuid), pairs.Nodup ∧ List.Forall₂ engine.At (l.marks fs) pairs ∧
    ∀ pair ∈ pairs, pair.2 ∈ l.progress.run.seen

private theorem Work.map_mark_firing (engine : Engine σ) (work : Work σ) (p : Progress σ π) :
    (work.firing? engine p).toList.map Firing.mark = work.mark?.toList := by
  cases work <;> rfl

omit [RecordKeeper π] in
private theorem Run.exists_positions (engine : Engine σ) (run : Run σ) (action : ActionId)
    (record : Record) :
    ∃ pairs : List (Nat × Uuid), pairs.Nodup ∧ (∀ pair ∈ pairs, pair.2 = record.id) ∧
      List.Forall₂ engine.At
        (((run.firings action record engine.rules).map
          fun firing => Work.evaluate firing.1 firing.2 record).filterMap Work.mark?) pairs := by
  let found (k : Nat) (rule : Rule σ) : Nat × Rule σ × List Frame :=
    (k, rule, (run.offered action record k rule).1.map Joined.frame)
  let placed := (engine.rules.mapIdx found).filter fun x => !x.2.2.isEmpty
  have hfirings : run.firings action record engine.rules = placed.map Prod.snd := by
    have hmap : (engine.rules.mapIdx found).map Prod.snd = engine.rules.mapIdx fun k rule =>
        (rule, (run.offered action record k rule).1.map Joined.frame) := by
      rw [List.mapIdx_eq_ofFn, List.mapIdx_eq_ofFn, List.map_ofFn]
      rfl
    rw [firings, ← hmap, List.filter_map]
    rfl
  have hrule : ∀ x ∈ placed, engine.rules[x.1]? = some x.2.1 := by
    intro x hx
    obtain ⟨k, hk, rfl⟩ := List.mem_mapIdx.mp (List.mem_filter.mp hx).1
    exact List.getElem?_eq_getElem hk
  refine ⟨placed.map fun x => (x.1, record.id), ?_, ?_, ?_⟩
  · have hpositions : ((engine.rules.mapIdx found).map fun x => (x.1, record.id)).Nodup := by
      rw [List.mapIdx_eq_ofFn, List.map_ofFn, List.nodup_ofFn]
      intro i j hij
      exact Fin.ext (congrArg Prod.fst hij)
    exact hpositions.sublist (List.filter_sublist.map _)
  · intro pair hpair
    obtain ⟨x, _, rfl⟩ := List.mem_map.mp hpair
    rfl
  · have hmarks : ((placed.map Prod.snd).map
        fun firing => Work.evaluate firing.1 firing.2 record).filterMap Work.mark? =
          placed.map fun x => (x.2.1, record) := by
      rw [List.map_map, List.filterMap_map]
      exact congrFun List.filterMap_eq_map placed
    rw [hfirings, hmarks, List.forall₂_map_left_iff, List.forall₂_map_right_iff, List.forall₂_same]
    exact fun x hx => ⟨hrule x hx, rfl⟩

private theorem calm_step (engine : Engine σ) {work : Work σ} {p : Progress σ π}
    (h : work.matching? p.run = none) :
    (step engine work p).2.run.seen = p.run.seen ∧
      ∀ next, (step engine work p).1 = .ok next → next.filterMap Work.mark? = [] := by
  constructor
  · refine (joins_step engine fun action record heq => ?_).2
    subst heq
    by_contra hunseen
    simp [Work.matching?, hunseen] at h
  · intro next hnext
    refine List.filterMap_eq_nil_iff.mpr fun w hw => ?_
    have hno := not_evaluate_of_no_matching h (Prod.ext hnext rfl) w hw
    cases w with
    | evaluate rule frames trigger => exact absurd rfl (hno rule frames trigger)
    | complete action record => rfl
    | invoke rule action input trigger => rfl

namespace Loop.Distinct

variable {fs : List (Firing σ)} {l l' : Loop σ π}

omit [RecordKeeper π] in
private theorem of_complete {p : Progress σ π} (h : Distinct engine fs ⟨[], p⟩) {action : ActionId}
    {record : Record} (hstack : l.stack = [.complete action record])
    (hrun : l.progress.run = p.run) : l.Distinct engine fs := by
  obtain ⟨pairs, hnodup, hpairs, hseen⟩ := h
  refine ⟨pairs, hnodup, ?_, hrun ▸ hseen⟩
  rw [marks, hstack]
  exact hpairs

private theorem marks_firing (engine : Engine σ) {work : Work σ} {rest : List (Work σ)}
    (hstack : l.stack = work :: rest) (hnext : l.next? = some (work, l.progress)) :
    (fs ++ (l.firing? engine).toList).map Firing.mark ++ rest.filterMap Work.mark? =
      l.marks fs := by
  have hfiring : l.firing? engine = work.firing? engine l.progress := by
    rw [firing?, hnext, Option.bind_some]
  rw [hfiring, List.map_append, Work.map_mark_firing, marks, hstack, List.filterMap_cons,
    List.append_assoc]
  cases work.mark? <;> rfl

private theorem turn (h : l.Distinct engine fs) (hturn : l.turn engine = .inl l') :
    l'.Distinct engine (fs ++ (l.firing? engine).toList) := by
  obtain ⟨work, rest, next, hstack, hnext, hstep, hstack'⟩ := turn_cases hturn
  obtain ⟨pairs, hnodup, hpairs, hseen⟩ := h
  rw [← marks_firing engine hstack hnext] at hpairs
  cases hmatching : work.matching? l.progress.run with
  | none =>
    obtain ⟨hsame, hnone⟩ := calm_step engine hmatching
    rw [hstep] at hsame
    have hmarks := hnone next (congrArg Prod.fst hstep)
    refine ⟨pairs, hnodup, ?_, hsame ▸ hseen⟩
    rw [marks, hstack', List.filterMap_append, hmarks, List.nil_append]
    exact hpairs
  | some m =>
    cases work with
    | evaluate rule frames trigger => cases hmatching
    | invoke rule action input trigger => cases hmatching
    | complete action record =>
      have hunseen : record.id ∉ l.progress.run.seen := by
        intro hmem
        simp [Work.matching?, hmem] at hmatching
      simp only [step, completeRecord_of_unseen action hunseen, Prod.mk.injEq, Except.ok.injEq]
        at hstep
      obtain ⟨rfl, hprogress⟩ := hstep
      obtain ⟨before, after, rfl, hbefore, hafter⟩ := exists_of_forall₂_append hpairs
      obtain ⟨new, hnew, hids, hmarks⟩ :=
        Run.exists_positions engine l.progress.run action record
      refine ⟨before ++ new ++ after, ?_, ?_, ?_⟩
      · have hdisjoint : new.Disjoint (before ++ after) := by
          intro pair hpair hold
          exact hunseen (hids pair hpair ▸ hseen pair hold)
        have hperm : (before ++ new ++ after).Perm (new ++ (before ++ after)) := by
          rw [← List.append_assoc]
          exact List.perm_append_comm.append_right after
        exact hperm.nodup_iff.mpr (List.nodup_append'.mpr ⟨hnew, hnodup, hdisjoint⟩)
      · rw [marks, hstack', List.filterMap_append, ← List.append_assoc]
        exact List.rel_append (List.rel_append hbefore hmarks) hafter
      · rw [← hprogress]
        simp only [List.mem_append] at hseen ⊢
        rintro pair ((hold | hpair) | hold)
        · exact List.mem_cons_of_mem _ (hseen pair (.inl hold))
        · exact hids pair hpair ▸ List.mem_cons_self ..
        · exact List.mem_cons_of_mem _ (hseen pair (.inr hold))

private theorem ended (h : l.Distinct engine fs) {result : Except Halt Unit} {p : Progress σ π}
    (hturn : l.turn engine = .inr (result, p)) :
    Distinct engine (fs ++ (l.firing? engine).toList) ⟨[], p⟩ := by
  obtain ⟨pairs, hnodup, hpairs, hseen⟩ := h
  have hkept : p.run.seen = l.progress.run.seen ∧ ∃ dropped,
      (fs ++ (l.firing? engine).toList).map Firing.mark ++ dropped = l.marks fs := by
    rcases turn_ends hturn with ⟨hnext, _, heq⟩ | ⟨hnext, _, heq⟩ |
      ⟨work, rest, halt, hstack, hnext, hstep, _⟩
    · cases heq
      exact ⟨rfl, l.stack.filterMap Work.mark?, by simp [firing?, hnext, marks]⟩
    · cases heq
      exact ⟨rfl, l.stack.filterMap Work.mark?, by simp [firing?, hnext, marks]⟩
    · have hother : work.matching? l.progress.run = none := by
        cases work with
        | complete action record => cases hstep
        | evaluate rule frames trigger => rfl
        | invoke rule action input trigger => rfl
      have hsame := (calm_step engine hother).1
      rw [hstep] at hsame
      exact ⟨hsame, _, marks_firing engine hstack hnext⟩
  obtain ⟨hsame, dropped, hmarks⟩ := hkept
  rw [← hmarks] at hpairs
  obtain ⟨before, after, rfl, hbefore, _⟩ := exists_of_forall₂_append hpairs
  refine ⟨before, hnodup.of_append_left, ?_, fun pair hpair => ?_⟩
  · simpa [marks] using hbefore
  · exact hsame ▸ hseen pair (List.mem_append_left _ hpair)

end Loop.Distinct

private theorem Run.run_of_no_opening {action : ActionId} {input : Payload} {p : Progress σ π}
    (h : opening engine action input p = none) : (invoke engine action input p).2.run = p.run := by
  unfold opening at h
  unfold invoke
  split at h
  · next hkind => rw [if_pos hkind]
  · next hkind =>
    rw [if_neg hkind]
    rcases hperform : engine.registry.perform action input p.stage.world with ⟨outcome, world⟩
    rw [hperform] at h
    cases outcome with
    | failed failure => rfl
    | broken b => rfl
    | ok output =>
      simp only at h ⊢
      rcases hkeep : RecordKeeper.persist p.stage.store
        ⟨engine.registry.nameOf action, input, output, some p.run.id, 0⟩ with ⟨kept, store⟩
      simp only [hkeep] at h ⊢
      cases kept with
      | ok record => cases h
      | error failure => rfl

private theorem Run.fired_of_finish {p : Progress σ π} {report : Report} {stage : Stage σ π}
    (h : finish p = (.ok report, stage)) : report.fired = p.run.fired := by
  unfold finish at h
  split at h
  · cases h
  · split at h
    · cases h
    · cases h
      rfl

namespace Run.Tally

variable {fs : List (Firing σ)} {l : Loop σ π}

private theorem distinct (h : Tally engine fs l) : l.Distinct engine fs := by
  induction h with
  | start stage cancel => exact ⟨[], List.nodup_nil, .nil, nofun⟩
  | meanwhile stage _ ih => exact ih
  | invoke action input _ hopening ih =>
    obtain ⟨_, _, hstack, hrun, _⟩ := opening_cases hopening
    exact ih.of_complete hstack hrun
  | deliver record _ hdelivery ih =>
    obtain ⟨_, rfl⟩ := redelivery_cases hdelivery
    exact ih.of_complete rfl rfl
  | turn _ hturn ih => exact ih.turn hturn
  | ended _ hturn ih => exact ih.ended hturn

private theorem fired_done {work : Work σ} {p : Progress σ π}
    (hfired : l.progress.run.fired = fs.countP Firing.isLeftFrames)
    (hnext : l.next? = some (work, l.progress)) (hstep : (step engine work l.progress).2 = p) :
    p.run.fired = (fs ++ (l.firing? engine).toList).countP Firing.isLeftFrames := by
  have hstepped := fired_step engine work l.progress
  rw [hstep, hfired] at hstepped
  rw [hstepped, List.countP_append, Loop.firing?, hnext, Option.bind_some]

private theorem fired_eq (h : Tally engine fs l) :
    l.progress.run.fired = fs.countP Firing.isLeftFrames := by
  induction h with
  | start stage cancel => rfl
  | meanwhile stage _ ih => exact ih
  | invoke action input _ hopening ih =>
    obtain ⟨_, _, _, hrun, _⟩ := opening_cases hopening
    rw [hrun, ih]
  | deliver record _ hdelivery ih =>
    obtain ⟨_, rfl⟩ := redelivery_cases hdelivery
    exact ih
  | turn _ hturn ih =>
    obtain ⟨work, _, _, _, hnext, hstep, _⟩ := Loop.turn_cases hturn
    exact fired_done ih hnext (congrArg Prod.snd hstep)
  | @ended fs l result p _ hturn ih =>
    rcases Loop.turn_ends hturn with ⟨hnext, _, heq⟩ | ⟨hnext, _, heq⟩ |
      ⟨work, _, _, _, hnext, hstep, _⟩
    · cases heq
      simpa [Loop.firing?, hnext] using ih
    · cases heq
      rw [Loop.firing?, hnext]
      exact ih.trans (congrArg _ (List.append_nil fs).symm)
    · exact fired_done ih hnext (congrArg Prod.snd hstep)

private theorem dispatches_iff (h : Tally engine fs l) :
    ∀ f ∈ fs, f.dispatches = true ↔ f.isLeftFrames = true ∧ ¬f.Idles := by
  have hnew : ∀ (fs : List (Firing σ)) (l : Loop σ π),
      (∀ f ∈ fs, f.dispatches = true ↔ f.isLeftFrames = true ∧ ¬f.Idles) →
      ∀ f ∈ fs ++ (l.firing? engine).toList,
        f.dispatches = true ↔ f.isLeftFrames = true ∧ ¬f.Idles := by
    intro fs l hold f hf
    rcases List.mem_append.mp hf with hf | hf
    · exact hold f hf
    · obtain ⟨done, _, hfiring⟩ := Option.bind_eq_some_iff.mp (Option.mem_toList.mp hf)
      exact Work.dispatches_iff hfiring
  induction h with
  | start stage cancel => exact nofun
  | meanwhile stage _ ih => exact ih
  | invoke action input _ _ ih => exact ih
  | deliver record _ _ ih => exact ih
  | turn _ _ ih => exact hnew _ _ ih
  | ended _ _ ih => exact hnew _ _ ih

private theorem drained (h : Tally engine fs l) :
    ∃ all, Tally engine all ⟨[], (drain engine l.stack l.progress).2⟩ :=
  Loop.drain_of_kept engine (I := fun l => ∃ fs, Tally engine fs l)
    (P := fun p => ∃ fs, Tally engine fs ⟨[], p⟩)
    (fun _ _ ⟨_, htally⟩ hturn => ⟨_, htally.turn hturn⟩)
    (fun _ _ ⟨_, htally⟩ hturn => ⟨_, htally.ended hturn⟩) ⟨fs, h⟩

private theorem invoked {p : Progress σ π} (h : Tally engine fs ⟨[], p⟩) (action : ActionId)
    (input : Payload) : ∃ all, Tally engine all ⟨[], (Run.invoke engine action input p).2⟩ := by
  cases hopening : opening engine action input p with
  | none =>
    have hrun := run_of_no_opening hopening
    have hmeanwhile := h.meanwhile (Run.invoke engine action input p).2.stage
    rw [← hrun] at hmeanwhile
    exact ⟨fs, hmeanwhile⟩
  | some l =>
    rw [invoke_of_opening hopening]
    exact (h.invoke action input hopening).drained

theorem delivered {p : Progress σ π} (h : Tally engine fs ⟨[], p⟩) (record : Record) :
    ∃ all, Tally engine all ⟨[], (Run.deliver engine record p).2⟩ := by
  rw [deliver_eq]
  cases hdelivery : redelivery engine record p with
  | none => exact ⟨fs, h⟩
  | some l => exact (h.deliver record hdelivery).drained

end Run.Tally

theorem Engine.invoke_tallied {action : ActionId} {input : Payload} {stage after : Stage σ π}
    {report : Report} (h : engine.invoke action input stage = (.ok report, after)) :
    ∃ fs p, Run.Tally engine fs ⟨[], p⟩ ∧ Run.finish p = (.ok report, after) := by
  have hstart : Run.Tally engine [] ⟨[], Run.start stage none⟩ := .start stage none
  obtain ⟨fs, htally⟩ := hstart.invoked action input
  refine ⟨fs, _, htally, ?_⟩
  unfold invoke at h
  rcases hinvoke : Run.invoke engine action input (Run.start stage none) with ⟨result, p⟩
  rw [hinvoke] at h
  rcases result with halt | record
  · cases halt <;> cases h
  · simp only at h ⊢
    split at h
    · next hfinish =>
      cases h
      exact hfinish
    · cases h

/-- The report of a run counts the firings that were left frames, each of them for another rule or
another completion. That is the number of the firings that dispatched something, exactly if there is
none that was left frames but came to no invocation: because its rule makes none, or because every
frame misses a variable. -/
theorem Run.fired_eq_dispatched_iff (engine : Engine σ) {fs : List (Firing σ)} {l : Loop σ π}
    (h : Run.Tally engine fs l) :
    (∃ pairs : List (Nat × Uuid), pairs.Nodup ∧
      List.Forall₂ (fun f pair => engine.rules[pair.1]? = some f.rule ∧ f.trigger.id = pair.2)
        fs pairs) ∧
    ∀ report stage, Run.finish l.progress = (.ok report, stage) →
      report.fired = fs.countP Firing.isLeftFrames ∧
      (report.fired = fs.countP Firing.dispatches ↔ ∀ f ∈ fs, ¬f.Idles) := by
  constructor
  · obtain ⟨pairs, hnodup, hpairs, _⟩ := h.distinct
    obtain ⟨before, after, rfl, hbefore, _⟩ := exists_of_forall₂_append hpairs
    exact ⟨before, hnodup.of_append_left, List.forall₂_map_left_iff.mp hbefore⟩
  · intro report stage hfinish
    have hreport : report.fired = fs.countP Firing.isLeftFrames := by
      rw [fired_of_finish hfinish, h.fired_eq]
    have hdispatches := h.dispatches_iff
    refine ⟨hreport, ?_⟩
    rw [hreport, countP_eq_countP_iff fun f hf hd => ((hdispatches f hf).mp hd).1]
    refine forall₂_congr fun f hf => ?_
    rw [hdispatches f hf]
    constructor
    · intro hleft hidles
      have hframes : f.isLeftFrames = true := by simp [Firing.isLeftFrames, hidles.1]
      exact (hleft hframes).2 hidles
    · exact fun hidles hframes => ⟨hframes, hidles⟩

end Keeper

/-- Here the only firing dispatches the invocation of its only frame. -/
theorem Run.fired_eq_dispatched_iff_again :
    ∃ (fs : List (Firing Unit)) (p : Progress Unit RecordStore) (report : Report)
      (stage : Stage Unit RecordStore), Run.Tally (.echo [.again] {}) fs ⟨[], p⟩ ∧
      Run.finish p = (.ok report, stage) ∧ report.fired = 1 ∧
      report.fired = fs.countP Firing.dispatches := by
  have hstart : Tally (.echo [.again] {}) [] ⟨[], start ⟨(), RecordStore.empty, 0⟩ none⟩ :=
    .start _ none
  have hopened := hstart.invoke ⟨0⟩ [] rfl
  have hevaluated := (hopened.turn rfl).turn rfl
  have hended := (hevaluated.turn rfl).ended rfl
  refine ⟨_, _, _, _, hended, rfl, rfl, ?_⟩
  obtain ⟨_, hcounts⟩ := Run.fired_eq_dispatched_iff (.echo [.again] {}) hended
  refine (hcounts _ _ rfl).2.mpr fun f hf hidles => ?_
  obtain rfl := List.mem_singleton.mp hf
  rcases hidles.2 with hthen | herror
  · cases hthen
  · obtain ⟨e, he⟩ := herror [] (List.mem_singleton.mpr rfl)
    cases he

/-- A rule that is left a frame but misses a variable counts as fired, though it dispatches
nothing. -/
theorem Run.fired_ne_dispatched_lacking :
    ∃ (fs : List (Firing Unit)) (p : Progress Unit RecordStore) (report : Report)
      (stage : Stage Unit RecordStore), Run.Tally (.echo [.lacking] {}) fs ⟨[], p⟩ ∧
      Run.finish p = (.ok report, stage) ∧
      (Engine.echo [.lacking] {}).invoke ⟨0⟩ [("a", .string "v")] ⟨(), .empty, 0⟩ =
        (.ok report, stage) ∧
      report.fired = 1 ∧ fs.countP Firing.dispatches = 0 := by
  let engine : Engine Unit := .echo [.lacking] {}
  obtain ⟨l, hopening⟩ : ∃ l : Loop Unit RecordStore, opening engine ⟨0⟩ [("a", .string "v")]
      (start ⟨(), .empty, 0⟩ none) = some l := ⟨_, rfl⟩
  have hopened : Tally engine [] l := .invoke _ _ (.start _ _) hopening
  obtain ⟨fs, ended, hended, hrun, hfired, hdispatched⟩ : ∃ fs ended,
      Tally engine fs ⟨[], ended⟩ ∧ l.run engine 3 = some (.ok (), ended) ∧
      ended.run.fired = 1 ∧ fs.countP Firing.dispatches = 0 := by
    cases hopening
    exact ⟨_, _, ((hopened.turn rfl).turn rfl).ended rfl, rfl, rfl, rfl⟩
  exact ⟨fs, ended, _, _, hended, rfl, Engine.invoke_of_drained hopening (Loop.of_run hrun).1,
    hfired, hdispatched⟩

end ConceptSync
