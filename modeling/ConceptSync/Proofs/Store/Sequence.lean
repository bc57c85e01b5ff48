import Mathlib.Data.List.Nodup
import ConceptSync.Proofs.Store.Reachable

set_option autoImplicit false
set_option relaxedAutoImplicit false

/-!
The records of a store in sequence. Sequence numbers strictly increase along the store, so a record
is read back at its own number, and the records of one run are what that run alone made them.
-/

namespace ConceptSync

/-- A record caused by another, one step deeper and in the chain that starts where the other's
does. -/
structure Record.ChildOf (r cause : Record) : Prop where
  parent : r.parent = some cause.seq
  causedBy : r.causedBy = some (cause.causedBy.getD cause.seq)
  depth : r.depth = cause.depth + 1

/-- A record from outside. -/
structure Record.IsRoot (r : Record) : Prop where
  parent : r.parent = none
  causedBy : r.causedBy = none
  depth : r.depth = 0

namespace RecordStore

private theorem increasing_insert {s : RecordStore} (hle : ∀ r ∈ s.records, r.seq ≤ s.latest)
    (h : s.records.Pairwise fun a b => a.seq < b.seq) (d : Draft) (run : String)
    (parent causedBy : Option Int) :
    (s.insert d run parent causedBy).2.records.Pairwise fun a b => a.seq < b.seq := by
  refine List.pairwise_append.mpr ⟨h, List.pairwise_singleton _ _, fun a ha b hb => ?_⟩
  obtain rfl := List.mem_singleton.mp hb
  exact Int.lt_add_one_of_le (hle a ha)

private theorem increasing_after {s : RecordStore} (hle : ∀ r ∈ s.records, r.seq ≤ s.latest)
    (h : s.records.Pairwise fun a b => a.seq < b.seq) (c : Call) :
    (s.after c).records.Pairwise fun a b => a.seq < b.seq := by
  cases c with
  | append d =>
    simp only [after, append]
    split
    · exact h
    · exact increasing_insert hle h _ _ _ _
  | appendChild parent d =>
    simp only [after, appendChild]
    split
    · exact h
    · exact increasing_insert hle h _ _ _ _
  | forgetRun run => exact h.filter _
  | tick now => exact h

theorem Reachable.increasing {s : RecordStore} (h : s.Reachable) :
    s.records.Pairwise fun a b => a.seq < b.seq := by
  obtain ⟨calls, rfl⟩ := h
  induction calls using List.reverseRecOn with
  | nil => exact List.Pairwise.nil
  | append_singleton calls c ih =>
    rw [List.foldl_append]
    exact increasing_after (Reachable.seq_le ⟨calls, rfl⟩) ih c

theorem Reachable.eq_of_seq {s : RecordStore} (h : s.Reachable) {a b : Record}
    (ha : a ∈ s.records) (hb : b ∈ s.records) (hseq : a.seq = b.seq) : a = b := by
  have hnodup : (s.records.map Record.seq).Nodup :=
    List.pairwise_map.mpr (h.increasing.imp fun hlt => Int.ne_of_lt hlt)
  exact List.inj_on_of_nodup_map hnodup ha hb hseq

theorem Reachable.read_of_mem {s : RecordStore} (h : s.Reachable) {r : Record}
    (hr : r ∈ s.records) : s.read r.seq = some r := by
  unfold read
  cases hfound : s.records.find? fun r' => r'.seq == r.seq with
  | none =>
    have := List.find?_eq_none.mp hfound r hr
    simp at this
  | some r' =>
    have hseq : r'.seq = r.seq := by simpa using List.find?_some hfound
    rw [h.eq_of_seq (List.mem_of_find?_eq_some hfound) hr hseq]

theorem Reachable.ancestors_of_isRoot {s : RecordStore} (h : s.Reachable) {r : Record}
    (hr : r ∈ s.records) (hroot : r.IsRoot) : s.ancestors r.seq = [] := by
  rw [ancestors, h.read_of_mem hr, Option.bind_some, hroot.parent]
  exact chain_none _ _

private theorem readRun_insert_of_ne {s : RecordStore} {d : Draft} {run own : String}
    {parent causedBy : Option Int} (h : run ≠ own) :
    (s.insert d run parent causedBy).2.readRun own = s.readRun own := by
  simp [readRun, insert, h]

private theorem readRun_insert {s : RecordStore} {d : Draft} {own : String}
    {parent causedBy : Option Int} :
    (s.insert d own parent causedBy).2.readRun own =
      s.readRun own ++ [(s.insert d own parent causedBy).1] := by
  simp [readRun, insert]

/-- No call of another run touches the records of a run. -/
theorem readRun_after {s : RecordStore} {own : String} {c : Call} (h : c.Elsewhere own) :
    (s.after c).readRun own = s.readRun own := by
  cases c with
  | append d =>
    simp only [after, append]
    split
    · rfl
    · next run hrun =>
      refine readRun_insert_of_ne fun heq => ?_
      rw [heq] at hrun
      exact h hrun
  | appendChild parent d =>
    obtain ⟨run, hrun, hne⟩ := h
    simp only [after, appendChild, hrun, Option.getD_some]
    split
    · rfl
    · exact readRun_insert_of_ne hne
  | forgetRun run =>
    have hne : run ≠ own := h
    simp only [after, forgetRun, readRun, List.filter_filter]
    refine List.filter_congr fun r _ => ?_
    by_cases hown : r.run = own
    · simp [hown, hne.symm]
    · simp [hown]
  | tick now => rfl

theorem Reachable.append_own {s s' : RecordStore} (h : s.Reachable) {d : Draft} {own : String}
    {r : Record} (hrun : d.run = some own) (hdepth : d.depth = 0)
    (happend : s.append d = (.ok r, s')) :
    s'.readRun own = s.readRun own ++ [r] ∧ (∀ e ∈ s.records, e.seq < r.seq) ∧
      r.IsRoot ∧ r.Keeps d := by
  simp only [append, hrun] at happend
  obtain ⟨hr, rfl⟩ := Prod.mk.inj happend
  obtain rfl := Except.ok.inj hr
  refine ⟨readRun_insert, fun e he => ?_, ⟨rfl, rfl, hdepth⟩, keeps_insert _ _ _ _ _⟩
  have := h.seq_le e he
  simp only [insert]
  omega

theorem Reachable.appendChild_own {s : RecordStore} (h : s.Reachable) {d : Draft} {own : String}
    {cause : Record} (hcause : cause ∈ s.records) (hrun : d.run = some own)
    (hdepth : d.depth = cause.depth + 1) :
    ∃ r, (s.appendChild cause.seq d).1 = .ok r ∧
      (s.appendChild cause.seq d).2.readRun own = s.readRun own ++ [r] ∧
      (∀ e ∈ s.records, e.seq < r.seq) ∧ r.ChildOf cause ∧ r.Keeps d := by
  simp only [appendChild, h.read_of_mem hcause, hrun, Option.getD_some]
  refine ⟨_, rfl, readRun_insert, fun e he => ?_, ⟨rfl, rfl, hdepth⟩, keeps_insert _ _ _ _ _⟩
  have := h.seq_le e he
  simp only [insert]
  omega

end RecordStore

end ConceptSync
