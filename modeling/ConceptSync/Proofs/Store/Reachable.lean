import Mathlib.Data.List.Induction
import ConceptSync.Record.Store

set_option autoImplicit false
set_option relaxedAutoImplicit false

/-!
Stores that come about by calls, and what one call does to the records: each operation is told by
the one record it may add.
-/

namespace ConceptSync

/-- A record as a store issues it: its identifier is the one for its sequence number. -/
def Record.Issued (r : Record) : Prop := ∃ n : Nat, r.seq = n ∧ r.id = .issue .record n

theorem Record.Issued.id_eq {r s : Record} (hr : r.Issued) (hs : s.Issued) (h : r.seq = s.seq) :
    r.id = s.id := by
  obtain ⟨m, hm, hmid⟩ := hr
  obtain ⟨n, hn, hnid⟩ := hs
  have hmn : m = n := by omega
  rw [hmid, hnid, hmn]

/-- A record keeps what its draft says. -/
structure Record.Keeps (r : Record) (d : Draft) : Prop where
  action : r.action = d.action
  input : r.input = d.input
  output : r.output = d.output
  depth : r.depth = d.depth

namespace RecordStore

/-- What can happen to a store: an operation, or the passing of time. -/
inductive Call where
  | append (d : Draft)
  | appendChild (parent : Int) (d : Draft)
  | forgetRun (run : String)
  | tick (now : Timestamp)

def after (s : RecordStore) : Call → RecordStore
  | .append d => (s.append d).2
  | .appendChild parent d => (s.appendChild parent d).2
  | .forgetRun run => (s.forgetRun run).2
  | .tick now => { s with clock := now }

/-- A call that another run makes. An engine names the run of every record it keeps. -/
def Call.Elsewhere (own : String) : Call → Prop
  | .append d => d.run ≠ some own
  | .appendChild _ d => ∃ run, d.run = some run ∧ run ≠ own
  | .forgetRun run => run ≠ own
  | .tick _ => True

/-- A store that some calls made of the empty one. -/
def Reachable (s : RecordStore) : Prop := ∃ calls : List Call, calls.foldl after .empty = s

private theorem issued_insert (s : RecordStore) (d : Draft) (run : String)
    (parent causedBy : Option Int) :
    (s.insert d run parent causedBy).1.Issued :=
  ⟨s.latest + 1, rfl, rfl⟩

theorem keeps_insert (s : RecordStore) (d : Draft) (run : String) (parent causedBy : Option Int) :
    (s.insert d run parent causedBy).1.Keeps d :=
  ⟨rfl, rfl, rfl, rfl⟩

/-- Appending keeps a record of the draft in the draft's run. -/
theorem append_ok {s : RecordStore} {d : Draft} {r : Record} (h : (s.append d).1 = .ok r) :
    r.Issued ∧ r.Keeps d ∧ d.run = some r.run := by
  unfold append at h
  split at h
  · cases h
  · next run hrun =>
    cases h
    exact ⟨issued_insert s d run none none, keeps_insert s d run none none, hrun⟩

theorem appendChild_ok {s : RecordStore} {parent : Int} {d : Draft} {r : Record}
    (h : (s.appendChild parent d).1 = .ok r) :
    r.Issued ∧ r.Keeps d ∧ ∀ run, d.run = some run → r.run = run := by
  unfold appendChild at h
  split at h
  · cases h
  · cases h
    refine ⟨issued_insert _ _ _ _ _, keeps_insert _ _ _ _ _, fun run hrun => ?_⟩
    simp [hrun]

theorem mem_append {s : RecordStore} {d : Draft} {r : Record} :
    r ∈ (s.append d).2.records ↔ r ∈ s.records ∨ (s.append d).1 = .ok r := by
  unfold append
  split
  · simp
  · simp [insert, eq_comm]

theorem mem_appendChild {s : RecordStore} {parent : Int} {d : Draft} {r : Record} :
    r ∈ (s.appendChild parent d).2.records ↔
      r ∈ s.records ∨ (s.appendChild parent d).1 = .ok r := by
  unfold appendChild
  split
  · simp
  · simp [insert, eq_comm]

/-- After a call there are old records and issued ones, and another run's call adds none to a
run. -/
theorem mem_after {s : RecordStore} {c : Call} {r : Record} (h : r ∈ (s.after c).records) :
    r ∈ s.records ∨ r.Issued ∧ ∀ own, c.Elsewhere own → r.run ≠ own := by
  cases c with
  | append d =>
    rcases mem_append.mp h with hold | hnew
    · exact .inl hold
    · obtain ⟨hissued, _, hrun⟩ := append_ok hnew
      refine .inr ⟨hissued, fun own helsewhere heq => ?_⟩
      rw [heq] at hrun
      exact helsewhere hrun
  | appendChild parent d =>
    rcases mem_appendChild.mp h with hold | hnew
    · exact .inl hold
    · obtain ⟨hissued, _, hrun⟩ := appendChild_ok hnew
      refine .inr ⟨hissued, fun own helsewhere heq => ?_⟩
      obtain ⟨run, hd, hne⟩ := helsewhere
      exact hne ((hrun run hd).symm.trans heq)
  | forgetRun run => exact .inl ((List.mem_filter.mp h).1)
  | tick now => exact .inl h

private theorem seq_le_insert {s : RecordStore} (h : ∀ r ∈ s.records, r.seq ≤ s.latest) (d : Draft)
    (run : String) (parent causedBy : Option Int) :
    ∀ r ∈ (s.insert d run parent causedBy).2.records,
      r.seq ≤ (s.insert d run parent causedBy).2.latest := by
  intro r hr
  rcases List.mem_append.mp hr with hold | hnew
  · have := h r hold
    simp only [insert]
    omega
  · rw [List.mem_singleton.mp hnew]
    exact Int.le_refl _

private theorem seq_le_after {s : RecordStore} (h : ∀ r ∈ s.records, r.seq ≤ s.latest) (c : Call) :
    ∀ r ∈ (s.after c).records, r.seq ≤ (s.after c).latest := by
  cases c with
  | append d =>
    simp only [after, append]
    split
    · exact h
    · exact seq_le_insert h _ _ _ _
  | appendChild parent d =>
    simp only [after, appendChild]
    split
    · exact h
    · exact seq_le_insert h _ _ _ _
  | forgetRun run => exact fun r hr => h r (List.mem_filter.mp hr).1
  | tick now => exact h

theorem chain_none (s : RecordStore) (fuel : Nat) : s.chain fuel none = [] := by
  cases fuel <;> rfl

theorem Reachable.issued {s : RecordStore} (h : s.Reachable) : ∀ r ∈ s.records, r.Issued := by
  obtain ⟨calls, rfl⟩ := h
  induction calls using List.reverseRecOn with
  | nil =>
    intro r hr
    cases hr
  | append_singleton calls c ih =>
    intro r hr
    rw [List.foldl_append] at hr
    rcases mem_after hr with hold | ⟨hissued, _⟩
    · exact ih r hold
    · exact hissued

theorem Reachable.after {s : RecordStore} (h : s.Reachable) (c : Call) : (s.after c).Reachable := by
  obtain ⟨calls, rfl⟩ := h
  exact ⟨calls ++ [c], by rw [List.foldl_append]; rfl⟩

theorem Reachable.seq_le {s : RecordStore} (h : s.Reachable) :
    ∀ r ∈ s.records, r.seq ≤ s.latest := by
  obtain ⟨calls, rfl⟩ := h
  induction calls using List.reverseRecOn with
  | nil =>
    intro r hr
    cases hr
  | append_singleton calls c ih =>
    rw [List.foldl_append]
    exact seq_le_after ih c

theorem Reachable.ancestors_append {s : RecordStore} (h : s.Reachable) {d : Draft} {r : Record}
    (hr : (s.append d).1 = .ok r) : (s.append d).2.ancestors r.seq = [] := by
  unfold append at hr ⊢
  cases hrun : d.run with
  | none =>
    rw [hrun] at hr
    cases hr
  | some run =>
    rw [hrun] at hr
    cases hr
    have hnone : (s.records.find? fun old => old.seq == (s.latest : Int) + 1) = none := by
      rw [List.find?_eq_none]
      intro old hold
      have hle := h.seq_le old hold
      simp only [beq_iff_eq]
      omega
    have hread : (s.insert d run none none).2.read ((s.latest + 1 : Nat) : Int) =
        some (s.insert d run none none).1 := by
      simp [read, insert, List.find?_append, hnone]
    simp only [ancestors]
    rw [hread]
    exact chain_none _ _

theorem persist_of_run (s : RecordStore) (d : Draft) {run : String} (h : d.run = some run) :
    ∃ r, (RecordKeeper.persist s d).1 = .ok r := by
  change ∃ r, lift (s.append d).1 = .ok r
  unfold append
  rw [h]
  exact ⟨_, rfl⟩

theorem lift_eq_ok {α : Type} {e : Except StoreError α} {a : α} :
    lift e = .ok a ↔ e = .ok a := by
  cases e <;> simp [lift]

theorem append_of_persist {s s' : RecordStore} {d : Draft} {r : Record}
    (h : RecordKeeper.persist s d = (.ok r, s')) : s.append d = (.ok r, s') := by
  have hresult : lift (s.append d).1 = .ok r := congrArg Prod.fst h
  have hstore : (s.append d).2 = s' := congrArg Prod.snd h
  exact Prod.ext (lift_eq_ok.mp hresult) hstore

theorem appendChild_of_persistChild {s : RecordStore} {parent : Int} {d : Draft} {r : Record}
    (h : (RecordKeeper.persistChild s parent d).1 = .ok r) :
    (s.appendChild parent d).1 = .ok r := by
  have hresult : lift (s.appendChild parent d).1 = .ok r := h
  exact lift_eq_ok.mp hresult

theorem mem_readRun {s : RecordStore} {run : String} {r : Record} :
    r ∈ s.readRun run ↔ r ∈ s.records ∧ r.run = run := by
  simp [readRun]

end RecordStore

end ConceptSync
