import ConceptSync.Proofs.Engine.Consumption
import ConceptSync.Proofs.Engine.Sharing

set_option autoImplicit false
set_option relaxedAutoImplicit false

/-!
Runs that share a store do not notice each other. The report of a run is what it would have reported
alone, renumbered in order, and a run that is over takes its own records with it and no others.
-/

namespace ConceptSync

variable {σ : Type}

/-- A record is another one renumbered, with an identifier, a time and a run of its own. -/
structure Record.Renumbers (ρ : Int → Int) (r alone : Record) : Prop where
  seq : r.seq = ρ alone.seq
  action : r.action = alone.action
  parent : r.parent = alone.parent.map ρ
  causedBy : r.causedBy = alone.causedBy.map ρ
  depth : r.depth = alone.depth
  input : r.input = alone.input
  output : r.output = alone.output

/-- A report is another one with its records renumbered in order. -/
structure Report.Renumbers (ρ : Int → Int) (report alone : Report) : Prop where
  increasing : ∀ a ∈ alone.records, ∀ b ∈ alone.records, a.seq < b.seq → ρ a.seq < ρ b.seq
  records : List.Forall₂ (Record.Renumbers ρ) report.records alone.records
  aborted : report.aborted = alone.aborted.map fun a => { a with trigger := ρ a.trigger }
  fired : report.fired = alone.fired
  cancelled : report.cancelled = alone.cancelled

namespace Twins

def renumber (ts : Twins) (s : Int) : Int :=
  ((ts.find? fun t => t.2.seq == s).map fun t => t.1.seq).getD s

variable {ts : Twins}

namespace Grown

private theorem renumber_eq (h : ts.Grown) {s s' : Int} (hnames : ts.Names Record.seq s s') :
    s = ts.renumber s' := by
  have hnames' := hnames
  obtain ⟨t, ht, _, hsecond⟩ := hnames
  unfold renumber
  cases hfound : ts.find? fun t => t.2.seq == s' with
  | none =>
    have := List.find?_eq_none.mp hfound t ht
    simp [hsecond] at this
  | some u =>
    have hu : u.2.seq = s' := by simpa using List.find?_some hfound
    exact h.biUnique.1 hnames' ⟨u, List.mem_of_find?_eq_some hfound, rfl, hu⟩

private theorem map_renumber (h : ts.Grown) {o o' : Option Int}
    (hnames : Option.Rel (ts.Names Record.seq) o o') : o = o'.map ts.renumber := by
  cases hnames with
  | none => rfl
  | some hnames => exact congrArg some (h.renumber_eq hnames)

private theorem renumbers (h : ts.Grown) {t : Record × Record} (ht : t ∈ ts) :
    t.1.Renumbers ts.renumber t.2 where
  seq := h.renumber_eq (names_of_mem ht)
  action := (h.alike t ht).action
  parent := h.map_renumber (h.alike t ht).parent
  causedBy := h.map_renumber (h.alike t ht).causedBy
  depth := (h.alike t ht).depth
  input := (h.alike t ht).input
  output := (h.alike t ht).output

private theorem renumber_lt (h : ts.Grown) {t u : Record × Record} (ht : t ∈ ts) (hu : u ∈ ts)
    (hlt : t.2.seq < u.2.seq) : ts.renumber t.2.seq < ts.renumber u.2.seq := by
  rw [← h.renumber_eq (names_of_mem ht), ← h.renumber_eq (names_of_mem hu)]
  have hfirst := List.pairwise_iff_getElem.mp (List.pairwise_map.mp h.first.increasing)
  have hsecond := List.pairwise_iff_getElem.mp (List.pairwise_map.mp h.second.increasing)
  obtain ⟨i, hi, rfl⟩ := List.mem_iff_getElem.mp ht
  obtain ⟨j, hj, rfl⟩ := List.mem_iff_getElem.mp hu
  rcases Nat.lt_trichotomy i j with hij | rfl | hji
  · exact hfirst i j hi hj hij
  · exact absurd hlt (Int.lt_irrefl _)
  · have := hsecond j i hj hi hji
    omega

private theorem aborted_eq (h : ts.Grown) {as as' : List AbortedBranch}
    (halike : List.Forall₂ (AbortedBranch.Alike (ts.Names Record.seq)) as as') :
    as = as'.map fun a => { a with trigger := ts.renumber a.trigger } := by
  induction halike with
  | nil => rfl
  | @cons a a' _ _ ha _ ih =>
    obtain ⟨rule, trigger, error⟩ := a
    obtain ⟨hrule, htrigger, herror⟩ := ha
    dsimp only at hrule htrigger herror
    rw [List.map_cons, ← ih, ← h.renumber_eq htrigger, hrule, herror]

end Grown

end Twins

private theorem Progress.Alike.finish {ts : Twins} {p p' : Progress σ RecordStore}
    (h : p.Alike ts p') :
    ∃ ρ report alone, (Run.finish p).1 = .ok report ∧ (Run.finish p').1 = .ok alone ∧
      report.Renumbers ρ alone := by
  refine ⟨ts.renumber, _, _, rfl, rfl, ?_⟩
  have hrecords : List.Forall₂ (Record.Renumbers ts.renumber) p.records p'.records := by
    rw [← h.records, ← h.records', List.forall₂_map_left_iff, List.forall₂_map_right_iff]
    exact List.forall₂_same.mpr fun t ht => h.grown.renumbers ht
  refine ⟨fun a ha b hb => ?_, hrecords, h.grown.aborted_eq h.run.aborted, h.run.fired,
    h.run.cancelled⟩
  change a ∈ p'.records at ha
  change b ∈ p'.records at hb
  rw [← h.records'] at ha hb
  obtain ⟨t, ht, rfl⟩ := List.mem_map.mp ha
  obtain ⟨u, hu, rfl⟩ := List.mem_map.mp hb
  exact h.grown.renumber_lt ht hu

namespace Sharing

private theorem after_over (engine : Engine σ) {s : Sharing σ} {caller : Nat} {h : Held σ}
    (hheld : s.held caller = some h) {e : Event σ}
    (he : e = .drop caller ∨ e = .finish caller ∧ h.stack = []) :
    (s.after engine e).held = (s.letGo caller s.stage).held ∧
      (s.after engine e).stage.store = (s.stage.store.forgetRun h.run.id).2 := by
  rcases he with rfl | ⟨rfl, hidle⟩
  · simp only [after, hheld]
    exact ⟨rfl, rfl⟩
  · obtain ⟨run, stack, asked⟩ := h
    cases hidle
    simp only [after, hheld]
    exact ⟨rfl, rfl⟩

/-- Runs are isolated. Let concepts and refinements answer as functions of their inputs alone and
let any number of callers start runs of an empty store, make demands of them, settle and drop them,
with the turns of the runs in any order. Whatever the world, every report is the report of a run
alone that meets the same demands, renumbered in order. Settling or dropping a run removes its
records and leaves those of any other run as they were. When no run is held the store is empty. -/
theorem isolates_runs {engine : Engine σ} (hpure : engine.Pure) (start : σ)
    (events : List (Event σ)) (hsupply : (happens engine start events).stage.InSupply) :
    let s := happens engine start events
    (∀ e ∈ s.settled, ∀ world, ∃ ρ report alone, e.result = .ok report ∧
      (Run.finish (Run.alone engine world e.asked)).1 = .ok alone ∧ report.Renumbers ρ alone) ∧
    (∀ caller h, s.held caller = some h →
      ∀ e, e = .drop caller ∨ e = .finish caller ∧ h.stack = [] →
        let s' := s.after engine e
        s'.held caller = none ∧
        s'.stage.store.records = s.stage.store.records.filter (fun r => r.run != h.run.id) ∧
        ∀ other h', other ≠ caller → s.held other = some h' →
          s'.held other = some h' ∧
          s'.stage.store.readRun h'.run.id = s.stage.store.readRun h'.run.id) ∧
    ((∀ caller, s.held caller = none) → s.stage.store.records = []) := by
  intro s
  have hisolated : ∀ world, s.Isolated engine world := fun _ =>
    isolated_happens hpure start events hsupply
  refine ⟨fun e he world => ?_, fun caller h hheld e he => ?_, fun hnone => ?_⟩
  · obtain ⟨ts, p, halike, hresult⟩ := (hisolated world).settled e he
    obtain ⟨ρ, report, alone, hfinish, halone, hrenumbers⟩ := halike.finish
    exact ⟨ρ, report, alone, hresult.trans hfinish, halone, hrenumbers⟩
  · obtain ⟨hholds, hstore⟩ := after_over engine hheld he
    simp only [hholds, hstore]
    refine ⟨by simp [letGo], rfl, fun other h' hne hheld' => ⟨held_letGo.mpr ⟨hne, hheld'⟩, ?_⟩⟩
    refine (RecordStore.TouchedBy.forgetRun h.run.id s.stage.store).readRun fun heq => ?_
    exact hne ((hisolated start).apart other caller h' h hheld' hheld heq.symm)
  · refine List.eq_nil_iff_forall_not_mem.mpr fun r hr => ?_
    obtain ⟨caller, h, hheld, _⟩ := (hisolated start).owned r hr
    cases (hnone caller).symm.trans hheld

def twoRuns : List (Event Unit) :=
  let say : Run.Demand := .invoke ⟨0⟩ []
  [.start 0, .start 1, .ask 0 say, .ask 1 say, .turn 1, .turn 0, .ask 0 say, .turn 0, .turn 0,
    .finish 0, .finish 1]

private theorem pure_pairs : (Engine.echo [.pairs] {}).Pure := by
  refine ⟨fun action input _ _ => rfl, fun rule hrule clause hclause => ?_⟩
  obtain rfl := List.mem_singleton.mp hrule
  cases hclause

/-- Where two runs say something, what one said twice pairs up as it would alone, and nothing pairs
up across the runs. -/
theorem pairs_isolates_runs :
    let s := happens (.echo [.pairs] {}) () twoRuns
    s.stage.InSupply ∧
      (s.settled.map fun e => e.result.toOption.map fun report =>
        (report.records.map Record.seq, report.fired)) = [some ([1, 3], 1), some ([2], 0)] ∧
      ∀ e ∈ s.settled, ∃ ρ report alone, e.result = .ok report ∧
        (Run.finish (Run.alone (.echo [.pairs] {}) () e.asked)).1 = .ok alone ∧
        report.Renumbers ρ alone := by
  have hsupply : (happens (.echo [.pairs] {}) () twoRuns).stage.InSupply :=
    ⟨by decide +kernel, by decide +kernel⟩
  exact ⟨hsupply, by decide +kernel, fun e he =>
    (isolates_runs pure_pairs () twoRuns hsupply).1 e he ()⟩

end Sharing

end ConceptSync
