import ConceptSync.Proofs.Engine.Course

set_option autoImplicit false
set_option relaxedAutoImplicit false

/-!
What matching a completion queues: for each rule that it joins in, to refine the joined frames.
Frames come to be refined in no other way.
-/

namespace ConceptSync

variable {σ : Type}

namespace Matching

/-- The work that matching the completion queues for the rule at a position: nothing if it joins
nothing, and otherwise to refine the joined frames. -/
def handed (m : Matching σ) (k : Nat) (rule : Rule σ) : List (Work σ) :=
  if (m.joined k rule).isEmpty then []
  else [.evaluate rule ((m.joined k rule).map Joined.frame) m.record]

end Matching

private theorem map_filter_eq_flatMap {α β : Type} (l : List α) (keep : α → Bool) (g : α → β) :
    (l.filter keep).map g = l.flatMap fun a => if keep a then [g a] else [] := by
  induction l with
  | nil => rfl
  | cons a l ih =>
    rw [List.filter_cons, List.flatMap_cons, ← ih]
    split <;> simp

private theorem Matching.flatten_handed (m : Matching σ) (rules : List (Rule σ)) :
    (rules.mapIdx m.handed).flatten =
      (m.run.firings m.action m.record rules).map
        fun firing => .evaluate firing.1 firing.2 m.record := by
  rw [Run.firings, map_filter_eq_flatMap, List.flatMap_def]
  congr 1
  refine List.ext_getElem? fun k => ?_
  simp only [List.getElem?_map, List.getElem?_mapIdx, Option.map_map]
  congr 1
  funext rule
  simp only [Function.comp_apply, handed, joined, List.isEmpty_map]
  by_cases hempty : (m.run.offered m.action m.record k rule).1.isEmpty <;> simp [hempty]

private theorem Matching.rule_of_handed {m : Matching σ} {k : Nat} {rule rule' : Rule σ}
    {frames : List Frame} {trigger : Record}
    (h : .evaluate rule frames trigger ∈ m.handed k rule') : rule' = rule := by
  unfold handed at h
  split at h
  · cases h
  · cases List.mem_singleton.mp h
    rfl

theorem not_evaluate_of_no_matching {π : Type} [RecordKeeper π] {engine : Engine σ}
    {work : Work σ} {p q : Progress σ π} {next : List (Work σ)}
    (h : work.matching? p.run = none) (hstep : step engine work p = (.ok next, q)) :
    ∀ w ∈ next, ∀ rule frames trigger, w ≠ .evaluate rule frames trigger := by
  intro w hw rule frames trigger
  cases work with
  | complete action record =>
    have hseen : record.id ∈ p.run.seen := by
      by_contra hunseen
      simp [Work.matching?, hunseen] at h
    simp only [step, completeRecord_of_seen action hseen] at hstep
    cases hstep
    cases hw
  | evaluate rule' frames' trigger' =>
    obtain ⟨_, _, _, _, _, _, _, rfl⟩ := evaluate_step hstep w hw
    simp
  | invoke rule' action input trigger' =>
    obtain ⟨_, rfl⟩ := invoke_step (congrArg Prod.fst hstep) w hw
    simp

theorem Loop.turn_matching {π : Type} [RecordKeeper π] (engine : Engine σ) {l : Loop σ π}
    {m : Matching σ} (h : l.matching? = some m) :
    ∃ rest, l.stack = .complete m.action m.record :: rest ∧
      l.turn engine = .inl ⟨(engine.rules.mapIdx m.handed).flatten ++ rest,
        l.progress.withRun (m.run.matched m.action m.record engine.rules)⟩ := by
  obtain ⟨⟨work, p⟩, hnext, hmatching⟩ := Option.bind_eq_some_iff.mp h
  obtain ⟨_, rfl⟩ := mem_stack_of_next hnext
  unfold next? at hnext
  split at hnext
  · cases hnext
  · next work' rest hstack =>
    split at hnext
    · cases hnext
    · next hcancel =>
      cases hnext
      cases work with
      | evaluate rule frames trigger => cases hmatching
      | invoke rule action input trigger => cases hmatching
      | complete action record =>
        simp only [Work.matching?] at hmatching
        split at hmatching
        · cases hmatching
        · next hunseen =>
          cases hmatching
          refine ⟨rest, hstack, ?_⟩
          simp only [turn, hstack, if_neg hcancel, step, completeRecord_of_unseen action hunseen,
            Matching.flatten_handed]

theorem Loop.unseen_of_matching {π : Type} {l : Loop σ π} {m : Matching σ}
    (h : l.matching? = some m) : m.run = l.progress.run ∧ m.record.id ∉ m.run.seen := by
  obtain ⟨⟨work, p⟩, hnext, hmatching⟩ := Option.bind_eq_some_iff.mp h
  obtain ⟨_, rfl⟩ := mem_stack_of_next hnext
  cases work with
  | evaluate rule frames trigger => cases hmatching
  | invoke rule action input trigger => cases hmatching
  | complete action record =>
    simp only [Work.matching?] at hmatching
    split at hmatching
    · cases hmatching
    · next hunseen =>
      cases hmatching
      exact ⟨rfl, hunseen⟩

theorem Run.Course.handed_of_queued {engine : Engine σ} {redelivers : Prop}
    {ms : List (Matching σ)} {l : Loop σ RecordStore} (course : Course engine redelivers ms l)
    {rule : Rule σ} {frames : List Frame} {trigger : Record}
    (hqueued : .evaluate rule frames trigger ∈ l.stack) :
    ∃ k, engine.rules[k]? = some rule ∧ ∃ m ∈ ms, .evaluate rule frames trigger ∈ m.handed k rule := by
  induction course with
  | start _ _ => cases hqueued
  | elsewhere _ _ _ _ ih => exact ih hqueued
  | invoke _ _ _ hopening _ =>
    obtain ⟨_, _, hstack, _⟩ := opening_cases hopening
    simp [hstack] at hqueued
  | deliver _ _ _ hdelivery _ =>
    obtain ⟨_, rfl⟩ := redelivery_cases hdelivery
    simp at hqueued
  | ended _ _ _ => cases hqueued
  | @turn ms l l' before hturn ih =>
    have hlater : .evaluate rule frames trigger ∈ l.stack →
        ∃ k, engine.rules[k]? = some rule ∧
          ∃ m ∈ ms ++ l.matching?.toList, .evaluate rule frames trigger ∈ m.handed k rule := by
      intro hold
      obtain ⟨k, hrule, m, hm, hhanded⟩ := ih hold
      exact ⟨k, hrule, m, List.mem_append_left _ hm, hhanded⟩
    cases hmatching : l.matching? with
    | some m =>
      obtain ⟨rest, hstack, hmatched⟩ := Loop.turn_matching engine hmatching
      obtain rfl := Sum.inl.inj (hturn.symm.trans hmatched)
      rcases List.mem_append.mp hqueued with hnew | hold
      · obtain ⟨works, hworks, hhanded⟩ := List.mem_flatten.mp hnew
        obtain ⟨k, hk, rfl⟩ := List.mem_mapIdx.mp hworks
        obtain rfl := Matching.rule_of_handed hhanded
        exact ⟨k, List.getElem?_eq_getElem hk, m, by simp, hhanded⟩
      · exact hmatching ▸ hlater (by simp [hstack, hold])
    | none =>
      obtain ⟨work, rest, next, hstack, hnext, hstep, hstack'⟩ := Loop.turn_cases hturn
      rw [hstack'] at hqueued
      rcases List.mem_append.mp hqueued with hnew | hold
      · have hnomatch : work.matching? l.progress.run = none := by
          simpa [Loop.matching?, hnext] using hmatching
        exact absurd rfl (not_evaluate_of_no_matching hnomatch hstep _ hnew rule frames trigger)
      · exact hmatching ▸ hlater (by simp [hstack, hold])

end ConceptSync
