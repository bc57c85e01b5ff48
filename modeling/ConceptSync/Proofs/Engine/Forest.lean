import ConceptSync.Proofs.Engine.Course
import ConceptSync.Proofs.Store.Causality

set_option autoImplicit false
set_option relaxedAutoImplicit false

/-!
The records of a run as a forest in pre-order. Whatever queued work belongs to is on the path from
the latest completion up to its root, deepest first; so a new completion goes after everything that
its own cause led to, and after nothing else.
-/

namespace ConceptSync

variable {σ : Type}

/-- A well-labelled causal forest that is listed in pre-order. -/
structure Forest (records : List Record) : Prop where
  increasing : records.Pairwise fun a b => a.seq < b.seq
  roots : ∀ r ∈ records, r.depth = 0 → r.parent = none ∧ r.causedBy = none
  parents : ∀ r ∈ records, r.depth ≠ 0 →
    ∃ p ∈ records, p.seq < r.seq ∧ r.parent = some p.seq ∧ r.depth = p.depth + 1
  tops : ∀ r ∈ records, r.depth ≠ 0 →
    ∃ top ∈ records, top.depth = 0 ∧ Causes records top r ∧ r.causedBy = some top.seq
  /-- What a record led to stands directly after it, in one block. -/
  blocks : ∀ before r after, records = before ++ r :: after →
    ∃ block rest, after = block ++ rest ∧ ∀ d, Causes records r d ↔ d ∈ block

def Blocks (records : List Record) : Prop :=
  ∀ before r after, records = before ++ r :: after →
    ∃ block rest, after = block ++ rest ∧ ∀ d, Causes records r d ↔ d ∈ block

def IsOpen (records : List Record) (t : Record) : Prop :=
  t ∈ records ∧ ∀ d ∈ records, t.seq < d.seq → Causes records t d

structure Nested (records : List Record) (unfinished : List Record) : Prop where
  open_ : ∀ t ∈ unfinished, IsOpen records t
  inner : unfinished.Pairwise fun t u => t = u ∨ Causes records u t

private theorem split_snoc {records before after : List Record} {new r : Record}
    (h : records ++ [new] = before ++ r :: after) :
    (records = before ∧ r = new ∧ after = []) ∨
      ∃ after', after = after' ++ [new] ∧ records = before ++ r :: after' := by
  rcases List.eq_nil_or_concat after with rfl | ⟨after', last, rfl⟩
  · obtain ⟨hbefore, hnew⟩ := List.append_inj' h rfl
    exact .inl ⟨hbefore, (List.cons.inj hnew).1.symm, rfl⟩
  · rw [List.concat_eq_append, ← List.cons_append, ← List.append_assoc] at h
    obtain ⟨hrecords, hlast⟩ := List.append_inj' h rfl
    obtain rfl := (List.cons.inj hlast).1
    exact .inr ⟨after', List.concat_eq_append, hrecords⟩

section Growing

variable {records : List Record} {new : Record}

private theorem Blocks.root (hblocks : Blocks records) (hgrown : Grown records)
    (hlt : ∀ e ∈ records, e.seq < new.seq) (hroot : new.IsRoot) : Blocks (records ++ [new]) := by
  intro before r after hsplit
  simp only [hgrown.causes_snoc_root hlt hroot]
  rcases split_snoc hsplit with ⟨_, rfl, rfl⟩ | ⟨after', rfl, hrecords⟩
  · refine ⟨[], [], rfl, fun d => ⟨fun hcauses => ?_, nofun⟩⟩
    exact absurd (hlt r hcauses.left_mem) (Int.lt_irrefl _)
  · obtain ⟨block, rest, rfl, hblock⟩ := hblocks before r after' hrecords
    exact ⟨block, rest ++ [new], by simp, hblock⟩

private theorem Blocks.child (hblocks : Blocks records) (hgrown : Grown records)
    (hlt : ∀ e ∈ records, e.seq < new.seq) {t : Record} (hopen : IsOpen records t)
    (hchild : new.ChildOf t) : Blocks (records ++ [new]) := by
  intro before r after hsplit
  simp only [hgrown.causes_snoc_child hlt hopen.1 hchild]
  have hnew : new ∉ records := fun hmem => Int.lt_irrefl _ (hlt new hmem)
  rcases split_snoc hsplit with ⟨_, rfl, rfl⟩ | ⟨after', rfl, hrecords⟩
  · refine ⟨[], [], rfl, fun d => ⟨?_, nofun⟩⟩
    rintro (hcauses | ⟨_, rfl | hcauses⟩)
    · exact absurd hcauses.left_mem hnew
    · exact absurd hopen.1 hnew
    · exact absurd hcauses.left_mem hnew
  · obtain ⟨block, rest, rfl, hblock⟩ := hblocks before r after' hrecords
    by_cases hcause : r = t ∨ Causes records r t
    · have hincreasing := hgrown.increasing
      rw [hrecords, List.pairwise_append, List.pairwise_cons, List.pairwise_append] at hincreasing
      obtain ⟨_, ⟨hfirst, _, _, hacross⟩, _⟩ := hincreasing
      have hrest : rest = [] := by
        refine List.eq_nil_iff_forall_not_mem.mpr fun d hd => ?_
        have hmem : d ∈ records := by simp [hrecords, hd]
        have hafter : t.seq < d.seq := by
          rcases hcause with rfl | hcause
          · exact hfirst d (List.mem_append_right _ hd)
          · exact hacross t ((hblock t).mp hcause) d hd
        have hcauses : Causes records r d := by
          rcases hcause with rfl | hcause
          · exact hopen.2 d hmem hafter
          · exact hcause.trans (hopen.2 d hmem hafter)
        exact absurd (hacross d ((hblock d).mp hcauses) d hd) (Int.lt_irrefl _)
      subst hrest
      refine ⟨block ++ [new], [], by simp, fun d => ?_⟩
      rw [hblock, List.mem_append, List.mem_singleton, and_iff_left hcause]
    · refine ⟨block, rest ++ [new], by simp, fun d => ?_⟩
      rw [hblock]
      simp [hcause]

private theorem Nested.root (hlt : ∀ e ∈ records, e.seq < new.seq) :
    Nested (records ++ [new]) [new] := by
  refine ⟨fun t ht => ?_, List.pairwise_singleton _ _⟩
  obtain rfl := List.mem_singleton.mp ht
  refine ⟨by simp, fun d hd hafter => ?_⟩
  rcases List.mem_append.mp hd with hold | hself
  · have := hlt d hold
    omega
  · rw [List.mem_singleton.mp hself] at hafter
    exact absurd hafter (Int.lt_irrefl _)

private theorem Nested.child {t : Record} {rest : List Record} (h : Nested records (t :: rest))
    (hgrown : Grown records) (hlt : ∀ e ∈ records, e.seq < new.seq) (hchild : new.ChildOf t) :
    Nested (records ++ [new]) (new :: rest) := by
  obtain ⟨htop, hinner⟩ := List.pairwise_cons.mp h.inner
  obtain ⟨⟨hmem, _⟩, hopen⟩ := List.forall_mem_cons.mp h.open_
  have hcauses : ∀ u ∈ rest, Causes (records ++ [new]) u new := by
    intro u hu
    refine (hgrown.causes_snoc_child hlt hmem hchild).mpr (.inr ⟨rfl, ?_⟩)
    exact (htop u hu).imp Eq.symm id
  constructor
  · rw [List.forall_mem_cons]
    refine ⟨(Nested.root hlt).open_ new (List.mem_singleton_self _), fun u hu => ?_⟩
    refine ⟨List.mem_append_left _ (hopen u hu).1, fun d hd hafter => ?_⟩
    rcases List.mem_append.mp hd with hold | hself
    · exact ((hopen u hu).2 d hold hafter).snoc
    · exact List.mem_singleton.mp hself ▸ hcauses u hu
  · refine List.pairwise_cons.mpr ⟨fun u hu => .inr (hcauses u hu), ?_⟩
    exact hinner.imp fun hor => hor.imp_right Causes.snoc

private theorem Nested.same {t : Record} {new rest : List Record} (h : Nested records (t :: rest))
    (hnew : ∀ u ∈ new, u = t) : Nested records (new ++ rest) := by
  obtain ⟨htop, hinner⟩ := List.pairwise_cons.mp h.inner
  obtain ⟨hopen, hrest⟩ := List.forall_mem_cons.mp h.open_
  constructor
  · intro u hu
    rcases List.mem_append.mp hu with hsame | hold
    · exact hnew u hsame ▸ hopen
    · exact hrest u hold
  · refine List.pairwise_append.mpr ⟨?_, hinner, fun u hu v hv => hnew u hu ▸ htop v hv⟩
    exact List.pairwise_of_forall_mem_list fun u hu v hv =>
      .inl ((hnew u hu).trans (hnew v hv).symm)

end Growing

namespace Run.Course

variable {engine : Engine σ} {ms : List (Matching σ)} {l : Loop σ RecordStore}

theorem grown {redelivers : Prop} (h : Course engine redelivers ms l) :
    Grown l.progress.records := by
  induction h with
  | @start stage cancel _ hfresh =>
    rw [records_start hfresh]
    exact .nil
  | elsewhere _ _ _ helsewhere ih =>
    rw [Progress.records, RecordStore.readRun_after helsewhere]
    exact ih
  | invoke _ _ before hopening ih =>
    obtain ⟨_, hopened⟩ := opened before.reachable hopening
    rw [hopened.records]
    exact ih.root hopened.latest hopened.isRoot
  | deliver _ _ _ hdelivery ih =>
    obtain ⟨_, rfl⟩ := redelivery_cases hdelivery
    exact ih
  | turn before hturn ih =>
    obtain ⟨_, _, _, hwork, ⟨hrecords, _⟩ | ⟨_, _, _, _, _, rfl, _, hkept⟩⟩ :=
      before.records_turn hturn
    · exact hrecords ▸ ih
    · exact hkept.records ▸ ih.child hkept.latest hwork hkept.childOf
  | ended before hturn ih => exact before.records_ended hturn ▸ ih

private theorem blocks_nested (h : Course engine False ms l) :
    Blocks l.progress.records ∧ Nested l.progress.records (l.stack.map Work.record) := by
  induction h with
  | @start stage cancel hstore hfresh =>
    rw [records_start hfresh]
    exact ⟨fun before r after hsplit => by simp at hsplit, by simp, .nil⟩
  | elsewhere _ _ _ helsewhere ih =>
    rw [Progress.records, RecordStore.readRun_after helsewhere]
    exact ih
  | invoke _ _ before hopening ih =>
    obtain ⟨_, hopened⟩ := opened before.reachable hopening
    rw [hopened.records, hopened.stack]
    exact ⟨ih.1.root before.grown hopened.latest hopened.isRoot, .root hopened.latest⟩
  | deliver hredelivers => exact hredelivers.elim
  | turn before hturn ih =>
    obtain ⟨work, rest, hstack, hwork, hturned⟩ := before.records_turn hturn
    have hnested := ih.2
    rw [hstack, List.map_cons] at hnested
    rcases hturned with ⟨hrecords, next, hstack', hnext⟩ | ⟨_, _, _, _, _, rfl, hstack', hkept⟩
    · rw [hrecords, hstack', List.map_append]
      refine ⟨ih.1, hnested.same fun u hu => ?_⟩
      obtain ⟨w, hw, rfl⟩ := List.mem_map.mp hu
      exact hnext w hw
    · rw [hkept.records, hstack', List.map_cons]
      have hopen := hnested.open_ _ (List.mem_cons_self ..)
      exact ⟨ih.1.child before.grown hkept.latest hopen hkept.childOf,
        hnested.child before.grown hkept.latest hkept.childOf⟩
  | ended before hturn ih => exact ⟨before.records_ended hturn ▸ ih.1, by simp, .nil⟩

/-- At every moment of a run whose completions are not delivered again, whatever other runs do in
between, settling the run reports its records as a well-labelled causal forest in pre-order. -/
theorem reports_forest (h : Course engine False ms l) :
    ∃ report, (Run.finish l.progress).1 = .ok report ∧
      report.records = l.progress.records ∧ Forest report.records := by
  refine ⟨_, rfl, rfl, h.grown.increasing, fun r hr hdepth => ?_, fun r hr hdepth => ?_,
    fun r hr hdepth => h.grown.top_of_depth hr hdepth, h.blocks_nested.1⟩
  · have hroot := h.grown.isRoot_of_depth hr hdepth
    exact ⟨hroot.parent, hroot.causedBy⟩
  · obtain ⟨cause, hcause, hlt, hchild⟩ := h.grown.cause_of_depth hr hdepth
    exact ⟨cause, hcause, hlt, hchild.parent, hchild.depth⟩

end Run.Course

/-- A rule that triggers itself down to the depth limit: a chain of three records. -/
theorem again_reports_forest :
    let engine := Engine.echo [.again] { maxDepth := 2, cycleGuard := false }
    ∃ ms p, Run.Course engine False ms ⟨[], p⟩ ∧
      ∃ report, (Run.finish p).1 = .ok report ∧ Forest report.records ∧
        report.records.map Record.depth = [0, 1, 2] := by
  intro engine
  let opened : Progress Unit RecordStore := Run.start ⟨(), .empty, 0⟩ none
  have hopened : Run.Course engine False [] ⟨[], opened⟩ :=
    .start ⟨[], rfl⟩ (by simp [RecordStore.empty])
  have hdepths : ((Run.opening engine ⟨0⟩ [] opened).bind fun l =>
      (l.run engine 10).map fun ended => ended.2.records.map Record.depth) = some [0, 1, 2] := by
    decide +kernel
  obtain ⟨l, hopening, hdepths⟩ := Option.bind_eq_some_iff.mp hdepths
  obtain ⟨ended, hrun, hdepths⟩ := Option.map_eq_some_iff.mp hdepths
  have course := hopened.invoked ⟨0⟩ []
  rw [Run.invoke_of_opening hopening, (Loop.of_run hrun).1] at course
  obtain ⟨report, hreport, hrecords, hforest⟩ := course.reports_forest
  exact ⟨_, _, course, report, hreport, hforest, hrecords ▸ hdepths⟩

end ConceptSync
