import Mathlib.Data.List.Range
import ConceptSync.Proofs.Store.Sequence
import ConceptSync.Proofs.Table
import ConceptSync.Record.Indexed

set_option autoImplicit false
set_option relaxedAutoImplicit false

/-!
The store with its indexes. Its parts stay in step under all calls: the records stand under their
own numbers, and the numbers of a run are those of the run's retained records. So it gives the
answers of the plain list of records, and it counts, numbers, files and forgets as it should.
-/

namespace ConceptSync

namespace IndexedStore

open RecordStore (Call)

def after (s : IndexedStore) : Call → IndexedStore
  | .append d => (s.append d).2
  | .appendChild parent d => (s.appendChild parent d).2
  | .forgetRun run => (s.forgetRun run).2
  | .tick now => { s with clock := now }

/-- The parts of a store agree. -/
structure Aligned (s : IndexedStore) : Prop where
  reachable : s.view.Reachable
  keyed : ∀ e ∈ s.records, e.1 = e.2.seq
  indexed : ∀ run, s.seqsOf run = (s.view.readRun run).map Record.seq
  sorted : s.byRun.Sorted

namespace Aligned

variable {s : IndexedStore}

theorem keys_eq (h : s.Aligned) : s.records.keys = s.view.records.map Record.seq := by
  rw [view, Table.keys, Table.values, List.map_map]
  exact List.map_congr_left h.keyed

theorem nodup_keys (h : s.Aligned) : s.records.keys.Nodup := by
  rw [h.keys_eq]
  exact List.pairwise_map.mpr (h.reachable.increasing.imp fun hlt => Int.ne_of_lt hlt)

private theorem read_eq (h : s.Aligned) (seq : Int) : s.read seq = s.view.read seq := by
  have hfind : ∀ records : Table Int Record, (∀ e ∈ records, e.1 = e.2.seq) →
      records.get? seq = records.values.find? fun r => r.seq == seq := by
    intro records hkeyed
    induction records with
    | nil => rfl
    | cons e rest ih =>
      obtain ⟨k, r⟩ := e
      have hk : k = r.seq := hkeyed (k, r) (List.mem_cons_self ..)
      have hrest := ih fun e he => hkeyed e (List.mem_cons_of_mem _ he)
      by_cases hseq : r.seq = seq
      · simp [Table.get?, Table.values, hk, hseq]
      · simp [Table.get?, Table.values, hk, hseq, hrest]
  exact hfind s.records h.keyed

theorem read_of_mem (h : s.Aligned) {r : Record} (hr : r ∈ s.view.records) :
    s.read r.seq = some r := by
  rw [h.read_eq, h.reachable.read_of_mem hr]

theorem mem_of_read (h : s.Aligned) {seq : Int} {r : Record} (hread : s.read seq = some r) :
    r ∈ s.view.records ∧ r.seq = seq := by
  rw [h.read_eq] at hread
  exact ⟨List.mem_of_find?_eq_some hread, by simpa using List.find?_some hread⟩

theorem readRun_eq (h : s.Aligned) (run : String) : s.readRun run = s.view.readRun run := by
  rw [readRun, h.indexed, List.filterMap_map]
  refine (List.filterMap_congr fun r hr => ?_).trans List.filterMap_some
  exact h.read_of_mem (RecordStore.mem_readRun.mp hr).1

private theorem chain_eq (h : s.Aligned) (fuel : Nat) (parent : Option Int) :
    s.chain fuel parent = s.view.chain fuel parent := by
  induction fuel generalizing parent with
  | zero => rfl
  | succ fuel ih =>
    have hread : s.read = s.view.read := funext h.read_eq
    rw [chain, RecordStore.chain, hread]
    cases parent.bind s.view.read with
    | none => rfl
    | some p => exact congrArg (p :: ·) (ih p.parent)

theorem ancestors_eq (h : s.Aligned) (seq : Int) : s.ancestors seq = s.view.ancestors seq := by
  have hlength : s.records.length = s.view.records.length := (List.length_map _).symm
  rw [ancestors, RecordStore.ancestors, h.read_eq, hlength, h.chain_eq]

section Insert

variable (d : Draft) (run : String) (parent causedBy : Option Int)

private theorem records_insert (h : s.Aligned) :
    (s.insert d run parent causedBy).2.records =
      s.records ++ [(((s.latest + 1 : Nat) : Int), (s.insert d run parent causedBy).1)] := by
  refine Table.insert_of_last (fun e he => ?_) _
  have hle : e.2.seq ≤ s.latest := h.reachable.seq_le e.2 (List.mem_map_of_mem he)
  have hkey := h.keyed e he
  constructor <;> dsimp only <;> omega

theorem view_insert (h : s.Aligned) :
    (s.insert d run parent causedBy).2.view = (s.view.insert d run parent causedBy).2 := by
  have hrecords := congrArg Table.values (h.records_insert d run parent causedBy)
  simp only [Table.values, List.map_append, List.map_cons, List.map_nil] at hrecords
  exact congrArg (RecordStore.mk (s.latest + 1) · s.clock) hrecords

private theorem seqsOf_insert (other : String) :
    (s.insert d run parent causedBy).2.seqsOf other =
      if run = other then s.seqsOf other ++ [((s.latest + 1 : Nat) : Int)]
      else s.seqsOf other := by
  simp only [seqsOf, insert, Table.get?_insert]
  split
  · next heq => simp [heq]
  · rfl

private theorem insert (h : s.Aligned)
    (hreachable : (s.view.insert d run parent causedBy).2.Reachable) :
    (s.insert d run parent causedBy).2.Aligned where
  reachable := h.view_insert d run parent causedBy ▸ hreachable
  keyed e he := by
    rw [h.records_insert] at he
    rcases List.mem_append.mp he with hold | hnew
    · exact h.keyed e hold
    · rw [List.mem_singleton.mp hnew]
      rfl
  indexed other := by
    rw [seqsOf_insert, h.view_insert, h.indexed]
    split
    · next heq => simp [RecordStore.readRun, RecordStore.insert, heq, view]
    · next hne => simp [RecordStore.readRun, RecordStore.insert, hne]
  sorted := h.sorted.insert _ _

end Insert

private theorem append_eq (h : s.Aligned) (d : Draft) :
    (s.append d).1 = (s.view.append d).1 ∧ (s.append d).2.view = (s.view.append d).2 := by
  unfold append RecordStore.append
  cases d.run with
  | none => exact ⟨rfl, rfl⟩
  | some run => exact ⟨rfl, h.view_insert d run none none⟩

private theorem appendChild_eq (h : s.Aligned) (parent : Int) (d : Draft) :
    (s.appendChild parent d).1 = (s.view.appendChild parent d).1 ∧
      (s.appendChild parent d).2.view = (s.view.appendChild parent d).2 := by
  unfold appendChild RecordStore.appendChild
  rw [h.read_eq]
  cases s.view.read parent with
  | none => exact ⟨rfl, rfl⟩
  | some p => exact ⟨rfl, h.view_insert d _ _ _⟩

section Forget

variable (run : String)

private theorem mem_seqsOf (h : s.Aligned) {e : Int × Record} (he : e ∈ s.records) :
    e.1 ∈ s.seqsOf run ↔ e.2.run = run := by
  have hmem : e.2 ∈ s.view.records := List.mem_map_of_mem he
  rw [h.indexed, h.keyed e he, List.mem_map]
  constructor
  · rintro ⟨r, hr, hseq⟩
    obtain ⟨hold, hrun⟩ := RecordStore.mem_readRun.mp hr
    rw [← h.reachable.eq_of_seq hold hmem hseq, hrun]
  · exact fun hrun => ⟨e.2, RecordStore.mem_readRun.mpr ⟨hmem, hrun⟩, rfl⟩

private theorem records_forgetRun (h : s.Aligned) :
    (s.forgetRun run).2.records = s.records.filter fun e => e.2.run != run := by
  unfold forgetRun
  cases hrun : s.byRun.get? run with
  | none =>
    refine (List.filter_eq_self.mpr fun e he => ?_).symm
    have hnone : e.1 ∉ s.seqsOf run := by simp [seqsOf, hrun]
    simpa using mt (h.mem_seqsOf run he).mpr hnone
  | some seqs =>
    have hseqs : s.seqsOf run = seqs := by simp [seqsOf, hrun]
    refine (Table.foldl_erase h.nodup_keys seqs).trans (List.filter_congr fun e he => ?_)
    have hiff := h.mem_seqsOf run he
    rw [hseqs] at hiff
    simp only [hiff, bne, decide_not, beq_eq_decide]

private theorem seqsOf_forgetRun (h : s.Aligned) (other : String) :
    (s.forgetRun run).2.seqsOf other = if run = other then [] else s.seqsOf other := by
  unfold forgetRun seqsOf
  by_cases hsame : run = other
  · subst hsame
    cases hrun : s.byRun.get? run with
    | none => simp [hrun]
    | some seqs => simp [Table.get?_erase_self h.sorted]
  · rw [if_neg hsame]
    cases s.byRun.get? run with
    | none => rfl
    | some seqs => simp [Table.get?_erase_of_ne _ hsame]

theorem forgetRun_eq (h : s.Aligned) :
    (s.forgetRun run).1 = (s.view.forgetRun run).1 ∧
      (s.forgetRun run).2.view = (s.view.forgetRun run).2 := by
  constructor
  · rw [RecordStore.forgetRun, ← List.length_map Record.seq, ← h.indexed, forgetRun, seqsOf]
    cases s.byRun.get? run with
    | none => rfl
    | some seqs => rfl
  · have hrecords := congrArg Table.values (h.records_forgetRun run)
    have hvalues : Table.values (s.records.filter fun e => e.2.run != run) =
        s.records.values.filter fun r => r.run != run := by
      rw [Table.values, Table.values, List.filter_map]
      rfl
    rw [hvalues] at hrecords
    have hrest : (s.forgetRun run).2.latest = s.latest ∧ (s.forgetRun run).2.clock = s.clock := by
      unfold forgetRun
      split <;> exact ⟨rfl, rfl⟩
    rw [view, hrecords, hrest.1, hrest.2]
    rfl

theorem forgetRun (h : s.Aligned) : (s.forgetRun run).2.Aligned where
  reachable := by
    rw [(h.forgetRun_eq run).2]
    exact h.reachable.after (.forgetRun run)
  keyed e he := by
    rw [h.records_forgetRun] at he
    exact h.keyed e (List.mem_filter.mp he).1
  indexed other := by
    rw [h.seqsOf_forgetRun, (h.forgetRun_eq run).2]
    split
    · next heq => simp [RecordStore.readRun, RecordStore.forgetRun, heq]
    · next hne =>
      have hother : (s.view.forgetRun run).2.readRun other = s.view.readRun other :=
        RecordStore.readRun_after (c := .forgetRun run) hne
      rw [hother, h.indexed]
  sorted := by
    unfold IndexedStore.forgetRun
    split
    · exact h.sorted
    · exact Table.sorted_erase h.sorted run

end Forget

private theorem view_after (h : s.Aligned) (c : Call) : (s.after c).view = s.view.after c := by
  cases c with
  | append d => exact (h.append_eq d).2
  | appendChild parent d => exact (h.appendChild_eq parent d).2
  | forgetRun run => exact (h.forgetRun_eq run).2
  | tick now => rfl

theorem after (h : s.Aligned) (c : Call) : (s.after c).Aligned := by
  cases c with
  | append d =>
    have hreachable := h.reachable.after (.append d)
    simp only [IndexedStore.after, RecordStore.after, append, RecordStore.append] at hreachable ⊢
    cases hrun : d.run with
    | none => exact h
    | some run =>
      rw [hrun] at hreachable
      exact h.insert d run none none hreachable
  | appendChild parent d =>
    have hreachable := h.reachable.after (.appendChild parent d)
    simp only [IndexedStore.after, RecordStore.after, appendChild, RecordStore.appendChild,
      h.read_eq] at hreachable ⊢
    cases hread : s.view.read parent with
    | none => exact h
    | some p =>
      rw [hread] at hreachable
      exact h.insert d _ _ _ hreachable
  | forgetRun run => exact h.forgetRun run
  | tick now => exact ⟨h.reachable.after (.tick now), h.keyed, h.indexed, h.sorted⟩

end Aligned

private theorem aligned_empty : empty.Aligned where
  reachable := ⟨[], rfl⟩
  keyed _ he := by cases he
  indexed _ := rfl
  sorted := .nil

/-- After any calls the parts of the store agree. -/
theorem aligned (calls : List Call) : (calls.foldl after empty).Aligned := by
  induction calls using List.reverseRecOn with
  | nil => exact aligned_empty
  | append_singleton calls c ih =>
    rw [List.foldl_append]
    exact ih.after c

theorem view_eq (calls : List Call) :
    (calls.foldl after empty).view = calls.foldl RecordStore.after .empty := by
  induction calls using List.reverseRecOn with
  | nil => rfl
  | append_singleton calls c ih =>
    rw [List.foldl_append, List.foldl_append, ← ih]
    exact (aligned calls).view_after c

end IndexedStore

end ConceptSync
