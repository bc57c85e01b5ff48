import ConceptSync.Proofs.Store.Indexed

set_option autoImplicit false
set_option relaxedAutoImplicit false

/-!
The books of a store, over all calls: how it numbers the records that it accepts, what it retains of
them, how the numbers of the runs divide what is retained, and what refusing and forgetting change.
-/

namespace ConceptSync

namespace IndexedStore

open RecordStore (Call)

def accepted? (s : IndexedStore) : Call → Option Record
  | .append d => (s.append d).1.toOption
  | .appendChild parent d => (s.appendChild parent d).1.toOption
  | .forgetRun _ => none
  | .tick _ => none

/-- The records that calls added, those forgotten since included. -/
def accepted (s : IndexedStore) : List Call → List Record
  | [] => []
  | c :: rest => (s.accepted? c).toList ++ (s.after c).accepted rest

private theorem accepted_concat (s : IndexedStore) (calls : List Call) (c : Call) :
    s.accepted (calls ++ [c]) =
      s.accepted calls ++ ((calls.foldl after s).accepted? c).toList := by
  induction calls generalizing s with
  | nil => simp [accepted]
  | cons first rest ih => simp [accepted, ih]

private theorem append_refused {s : IndexedStore} {d : Draft} {e : StoreError}
    (h : (s.append d).1 = .error e) : d.run = none ∧ (s.append d).2 = s := by
  unfold append at h ⊢
  cases hrun : d.run with
  | none => exact ⟨rfl, rfl⟩
  | some run => simp [hrun] at h

private theorem appendChild_refused {s : IndexedStore} {parent : Int} {d : Draft} {e : StoreError}
    (h : (s.appendChild parent d).1 = .error e) :
    s.read parent = none ∧ (s.appendChild parent d).2 = s := by
  unfold appendChild at h ⊢
  cases hread : s.read parent with
  | none => exact ⟨rfl, rfl⟩
  | some p => simp [hread] at h

structure Adds (s s' : IndexedStore) (r : Record) : Prop where
  seq : r.seq = s.latest + 1
  latest : s'.latest = s.latest + 1
  read : ∀ seq, s'.read seq = if r.seq = seq then some r else s.read seq
  readRun : ∀ run, s'.readRun run = if r.run = run then s.readRun run ++ [r] else s.readRun run

/-- Forgetting a run counts and takes away its retained records, and touches no other run. -/
structure Forgets (s : IndexedStore) (run : String) : Prop where
  count : (s.forgetRun run).1 = (s.records.values.filter fun r => r.run == run).length
  read : ∀ seq r, (s.forgetRun run).2.read seq = some r ↔ s.read seq = some r ∧ r.run ≠ run
  readRun : (s.forgetRun run).2.readRun run = []
  others : ∀ other, other ≠ run → (s.forgetRun run).2.readRun other = s.readRun other
  latest : (s.forgetRun run).2.latest = s.latest

/-- The books of a store that accepted some records. -/
structure Books (s : IndexedStore) (accepted : List Record) : Prop where
  counted : s.latest = accepted.length
  numbered : accepted.map Record.seq = (List.range accepted.length).map fun n : Nat => (n : Int) + 1
  stored : ∀ seq r, s.read seq = some r → r ∈ accepted ∧ r.seq = seq ∧ seq ≤ s.latest
  /-- What a record names as its cause came before it. -/
  causes : ∀ r ∈ accepted, ∀ seq, r.parent = some seq ∨ r.causedBy = some seq → seq < r.seq
  increasing : ∀ run, (s.readRun run).Pairwise fun a b => a.seq < b.seq
  mem_readRun : ∀ run r, r ∈ s.readRun run ↔ s.read r.seq = some r ∧ r.run = run
  /-- The numbers of a run are those of the records it reads, -/
  indexed : ∀ run, s.seqsOf run = (s.readRun run).map Record.seq
  /-- and every retained number stands under one run, once. -/
  divided : s.records.keys.Nodup ∧ s.byRun.values.flatten.Perm s.records.keys
  appends : ∀ d run, d.run = some run → ∃ r, (s.append d).1 = .ok r ∧ r.run = run ∧
    r.parent = none ∧ r.causedBy = none ∧ s.Adds (s.append d).2 r
  appendsChild : ∀ parent p d, s.read parent = some p → ∃ r, (s.appendChild parent d).1 = .ok r ∧
    r.run = d.run.getD p.run ∧ r.parent = some parent ∧ r.causedBy = some (p.causedBy.getD p.seq) ∧
    s.Adds (s.appendChild parent d).2 r
  refuses : ∀ d e, (s.append d).1 = .error e → d.run = none ∧ (s.append d).2 = s
  refusesChild : ∀ parent d e, (s.appendChild parent d).1 = .error e →
    s.read parent = none ∧ (s.appendChild parent d).2 = s
  forgets : ∀ run, s.Forgets run

namespace Aligned

variable {s : IndexedStore}

private theorem read_eq_some (h : s.Aligned) {seq : Int} {r : Record} :
    s.read seq = some r ↔ r ∈ s.view.records ∧ r.seq = seq := by
  refine ⟨h.mem_of_read, ?_⟩
  rintro ⟨hr, rfl⟩
  exact h.read_of_mem hr

private theorem mem_readRun (h : s.Aligned) {run : String} {r : Record} :
    r ∈ s.readRun run ↔ s.read r.seq = some r ∧ r.run = run := by
  rw [h.readRun_eq, RecordStore.mem_readRun, h.read_eq_some]
  simp

private theorem increasing_readRun (h : s.Aligned) (run : String) :
    (s.readRun run).Pairwise fun a b => a.seq < b.seq := by
  rw [h.readRun_eq]
  exact h.reachable.increasing.filter _

private theorem mem_seqsOf_iff (h : s.Aligned) {run : String} {seq : Int} :
    seq ∈ s.seqsOf run ↔ ∃ r ∈ s.view.records, r.run = run ∧ r.seq = seq := by
  simp only [h.indexed, List.mem_map, RecordStore.mem_readRun, and_assoc]

private theorem seqs_of_entry (h : s.Aligned) {e : String × List Int} (he : e ∈ s.byRun) :
    e.2 = s.seqsOf e.1 := by
  rw [seqsOf, Table.get?_of_mem h.sorted.nodup_keys he, Option.getD_some]

private theorem nodup_seqs (h : s.Aligned) : s.byRun.values.flatten.Nodup := by
  refine List.nodup_flatten.mpr ⟨fun seqs hseqs => ?_, List.pairwise_map.mpr ?_⟩
  · obtain ⟨e, he, rfl⟩ := List.mem_map.mp hseqs
    rw [h.seqs_of_entry he, h.indexed, ← h.readRun_eq]
    exact List.pairwise_map.mpr ((h.increasing_readRun e.1).imp fun hlt => Int.ne_of_lt hlt)
  · refine h.sorted.imp_of_mem fun {d e} hd he hlt seq hseqd hseqe => ?_
    rw [h.seqs_of_entry hd, h.mem_seqsOf_iff] at hseqd
    rw [h.seqs_of_entry he, h.mem_seqsOf_iff] at hseqe
    obtain ⟨a, ha, harun, haseq⟩ := hseqd
    obtain ⟨b, hb, hbrun, hbseq⟩ := hseqe
    obtain rfl := h.reachable.eq_of_seq ha hb (haseq.trans hbseq.symm)
    exact ne_of_lt hlt (harun.symm.trans hbrun)

private theorem divided (h : s.Aligned) : s.byRun.values.flatten.Perm s.records.keys := by
  refine (List.perm_ext_iff_of_nodup h.nodup_seqs h.nodup_keys).mpr fun seq => ?_
  rw [h.keys_eq, List.mem_flatten, List.mem_map]
  constructor
  · rintro ⟨seqs, hseqs, hseq⟩
    obtain ⟨e, he, rfl⟩ := List.mem_map.mp hseqs
    rw [h.seqs_of_entry he, h.mem_seqsOf_iff] at hseq
    obtain ⟨r, hr, _, hrseq⟩ := hseq
    exact ⟨r, hr, hrseq⟩
  · rintro ⟨r, hr, hrseq⟩
    have hseq : seq ∈ s.seqsOf r.run := h.mem_seqsOf_iff.mpr ⟨r, hr, rfl, hrseq⟩
    unfold seqsOf at hseq
    cases hget : s.byRun.get? r.run with
    | none => simp [hget] at hseq
    | some seqs =>
      rw [hget, Option.getD_some] at hseq
      exact ⟨seqs, List.mem_map_of_mem (Table.mem_of_get? hget), hseq⟩

private theorem adds_insert (h : s.Aligned) (d : Draft) (run : String)
    (parent causedBy : Option Int) (hnext : (s.insert d run parent causedBy).2.Aligned) :
    s.Adds (s.insert d run parent causedBy).2 (s.insert d run parent causedBy).1 where
  seq := rfl
  latest := rfl
  read seq := Table.get?_insert s.records _ _ seq
  readRun other := by
    rw [hnext.readRun_eq, h.view_insert, h.readRun_eq]
    by_cases hrun : run = other
    · simp [RecordStore.readRun, RecordStore.insert, IndexedStore.insert, hrun, view]
    · simp [RecordStore.readRun, RecordStore.insert, IndexedStore.insert, hrun]

private theorem appends (h : s.Aligned) {d : Draft} {run : String} (hrun : d.run = some run) :
    ∃ r, (s.append d).1 = .ok r ∧ r.run = run ∧ r.parent = none ∧ r.causedBy = none ∧
      s.Adds (s.append d).2 r := by
  have hnext := h.after (.append d)
  simp only [IndexedStore.after, append, hrun] at hnext ⊢
  exact ⟨_, rfl, rfl, rfl, rfl, h.adds_insert d run none none hnext⟩

private theorem appendsChild (h : s.Aligned) {parent : Int} {p : Record} {d : Draft}
    (hread : s.read parent = some p) :
    ∃ r, (s.appendChild parent d).1 = .ok r ∧ r.run = d.run.getD p.run ∧
      r.parent = some parent ∧ r.causedBy = some (p.causedBy.getD p.seq) ∧
      s.Adds (s.appendChild parent d).2 r := by
  have hnext := h.after (.appendChild parent d)
  simp only [IndexedStore.after, appendChild, hread] at hnext ⊢
  exact ⟨_, rfl, rfl, rfl, rfl, h.adds_insert d _ _ _ hnext⟩

private theorem forgets (h : s.Aligned) (run : String) : s.Forgets run where
  count := by
    rw [(h.forgetRun_eq run).1]
    rfl
  read seq r := by
    rw [(h.forgetRun run).read_eq_some, h.read_eq_some, (h.forgetRun_eq run).2]
    simp only [RecordStore.forgetRun, List.mem_filter, bne_iff_ne]
    tauto
  readRun := by
    rw [(h.forgetRun run).readRun_eq, (h.forgetRun_eq run).2]
    simp [RecordStore.readRun, RecordStore.forgetRun]
  others other hne := by
    rw [(h.forgetRun run).readRun_eq, h.readRun_eq, (h.forgetRun_eq run).2]
    exact RecordStore.readRun_after (c := .forgetRun run) hne.symm
  latest := by
    unfold IndexedStore.forgetRun
    split <;> rfl

end Aligned

private structure Numbers (s : IndexedStore) (accepted : List Record) : Prop where
  counted : s.latest = accepted.length
  numbered : accepted.map Record.seq = (List.range accepted.length).map fun n : Nat => (n : Int) + 1
  retained : ∀ seq r, s.read seq = some r → r ∈ accepted
  causes : ∀ r ∈ accepted, ∀ seq, r.parent = some seq ∨ r.causedBy = some seq → seq < r.seq

namespace Numbers

variable {s s' : IndexedStore} {accepted : List Record}

private theorem adds (h : s.Numbers accepted) {r : Record} (hadds : s.Adds s' r)
    (hcauses : ∀ seq, r.parent = some seq ∨ r.causedBy = some seq → seq ≤ s.latest) :
    s'.Numbers (accepted ++ [r]) where
  counted := by
    rw [hadds.latest, h.counted, List.length_append]
    rfl
  numbered := by
    rw [List.map_append, h.numbered, List.length_append, List.length_singleton, List.range_succ,
      List.map_append]
    simp [hadds.seq, h.counted]
  retained seq r' hread := by
    rw [hadds.read] at hread
    split at hread
    · cases hread
      simp
    · exact List.mem_append_left _ (h.retained seq r' hread)
  causes r' hr seq hcause := by
    rcases List.mem_append.mp hr with hold | hnew
    · exact h.causes r' hold seq hcause
    · rw [List.mem_singleton.mp hnew] at hcause ⊢
      have := hcauses seq hcause
      have := hadds.seq
      omega

private theorem appendChild (h : s.Numbers accepted) (haligned : s.Aligned) {parent : Int}
    {p : Record} (hread : s.read parent = some p) {d : Draft} {r : Record}
    (hr : (s.appendChild parent d).1 = .ok r) :
    (s.appendChild parent d).2.Numbers (accepted ++ [r]) := by
  obtain ⟨r', hr', _, hparent, hcausedBy, hadds⟩ := haligned.appendsChild hread (d := d)
  obtain rfl : r' = r := Except.ok.inj (hr'.symm.trans hr)
  obtain ⟨hmem, hseq⟩ := haligned.mem_of_read hread
  have hle : p.seq ≤ s.latest := haligned.reachable.seq_le p hmem
  refine h.adds hadds fun seq hcause => ?_
  rw [hparent, hcausedBy] at hcause
  rcases hcause with hcause | hcause
  · cases hcause
    omega
  · obtain rfl := Option.some.inj hcause
    cases hstart : p.causedBy with
    | none => simpa using hle
    | some first =>
      have := h.causes p (h.retained parent p hread) first (.inr hstart)
      simp only [Option.getD_some]
      omega

private theorem after (h : s.Numbers accepted) (haligned : s.Aligned) (c : Call) :
    (s.after c).Numbers (accepted ++ (s.accepted? c).toList) := by
  cases c with
  | append d =>
    cases hrun : d.run with
    | none => simpa [IndexedStore.after, accepted?, append, hrun, Except.toOption] using h
    | some run =>
      obtain ⟨r, hr, _, hparent, hcausedBy, hadds⟩ := haligned.appends hrun
      simpa [IndexedStore.after, accepted?, hr, Except.toOption] using
        h.adds hadds (by simp [hparent, hcausedBy])
  | appendChild parent d =>
    cases hread : s.read parent with
    | none =>
      simpa [IndexedStore.after, accepted?, IndexedStore.appendChild, hread, Except.toOption] using h
    | some p =>
      obtain ⟨r, hr, _⟩ := haligned.appendsChild hread (d := d)
      simpa [IndexedStore.after, accepted?, hr, Except.toOption] using
        h.appendChild haligned hread hr
  | forgetRun run =>
    have hforgets := haligned.forgets run
    simp only [accepted?, Option.toList_none, List.append_nil]
    exact ⟨hforgets.latest.trans h.counted, h.numbered,
      fun seq r hread => h.retained seq r ((hforgets.read seq r).mp hread).1, h.causes⟩
  | tick now =>
    simp only [accepted?, Option.toList_none, List.append_nil]
    exact ⟨h.counted, h.numbered, h.retained, h.causes⟩

end Numbers

private theorem numbers (calls : List Call) :
    (calls.foldl after empty).Numbers (empty.accepted calls) := by
  induction calls using List.reverseRecOn with
  | nil =>
    exact {
      counted := rfl
      numbered := rfl
      retained := fun _ _ hread => by cases hread
      causes := fun _ hr => by cases hr }
  | append_singleton calls c ih =>
    rw [accepted_concat, List.foldl_append]
    exact ih.after (aligned calls) c

/-- After any calls the books of the store are right. -/
theorem books (calls : List Call) : (calls.foldl after empty).Books (empty.accepted calls) := by
  have haligned := aligned calls
  have hnumbers := numbers calls
  generalize calls.foldl after empty = s at haligned hnumbers
  exact {
    counted := hnumbers.counted
    numbered := hnumbers.numbered
    stored := fun seq r hread => by
      obtain ⟨hmem, hseq⟩ := haligned.mem_of_read hread
      exact ⟨hnumbers.retained seq r hread, hseq, hseq ▸ haligned.reachable.seq_le r hmem⟩
    causes := hnumbers.causes
    increasing := haligned.increasing_readRun
    mem_readRun := fun _ _ => haligned.mem_readRun
    indexed := fun run => by rw [haligned.indexed, haligned.readRun_eq]
    divided := ⟨haligned.nodup_keys, haligned.divided⟩
    appends := fun _ _ => haligned.appends
    appendsChild := fun _ _ _ => haligned.appendsChild
    refuses := fun _ _ => append_refused
    refusesChild := fun _ _ _ => appendChild_refused
    forgets := haligned.forgets }

/-- A child filed under another run outlives the run of its parent, and a run that was forgotten goes
on with a new number. -/
example :
    let said : Draft := { action := "Echo.say", input := [], output := [] }
    let calls : List Call :=
      [.append { said with run := "a" }, .appendChild 1 { said with run := "b" }, .forgetRun "a",
        .appendChild 1 said, .append { said with run := "a" }]
    (calls.foldl after empty).byRun = [("a", [3]), ("b", [2])] := by decide +kernel

end IndexedStore

end ConceptSync
