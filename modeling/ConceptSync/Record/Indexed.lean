import ConceptSync.Record.Store
import ConceptSync.Table

set_option autoImplicit false
set_option relaxedAutoImplicit false

/-!
The record store as it is kept in memory: the records by their sequence numbers and, beside them,
the sequence numbers of every run. Reading a run and forgetting it go through the run's own numbers
and do not walk the records of other runs.
-/

namespace ConceptSync

/-- Retained records by sequence number, and the sequence numbers of every run. -/
structure IndexedStore where
  latest : Nat
  records : Table Int Record
  byRun : Table String (List Int)
  /-- The time that new records are stamped with. -/
  clock : Timestamp

namespace IndexedStore

def empty : IndexedStore := ⟨0, [], [], .epoch⟩

/-- The retained records in sequence. -/
def view (s : IndexedStore) : RecordStore := ⟨s.latest, s.records.values, s.clock⟩

/-- The sequence numbers under a run. -/
def seqsOf (s : IndexedStore) (run : String) : List Int := (s.byRun.get? run).getD []

/-- Append a record with its place in the causal order, and file it under its run. -/
def insert (s : IndexedStore) (d : Draft) (run : String) (parent causedBy : Option Int) :
    Record × IndexedStore :=
  let seq := s.latest + 1
  let r : Record :=
    { seq := seq
      id := .issue .record seq
      ts := s.clock
      action := d.action
      parent := parent
      causedBy := causedBy
      run := run
      depth := d.depth
      input := d.input
      output := d.output }
  (r, { s with
    latest := seq
    records := s.records.insert r.seq r
    byRun := s.byRun.insert run (s.seqsOf run ++ [r.seq]) })

def read (s : IndexedStore) (seq : Int) : Option Record := s.records.get? seq

/-- Append a record without parent. It needs a run. -/
def append (s : IndexedStore) (d : Draft) : Except StoreError Record × IndexedStore :=
  match d.run with
  | none => (.error (.missingRunId d.action), s)
  | some run =>
    let (r, s) := s.insert d run none none
    (.ok r, s)

/-- Append a record caused by another. It belongs to its parent's run unless it names its own, and
its chain starts where its parent's does. -/
def appendChild (s : IndexedStore) (parent : Int) (d : Draft) :
    Except StoreError Record × IndexedStore :=
  match s.read parent with
  | none => (.error (.parentNotFound parent), s)
  | some p =>
    let (r, s) := s.insert d (d.run.getD p.run) (some parent) (some (p.causedBy.getD p.seq))
    (.ok r, s)

def readRun (s : IndexedStore) (run : String) : List Record := (s.seqsOf run).filterMap s.read

/-- The retained records from a parent upwards. -/
def chain (s : IndexedStore) : Nat → Option Int → List Record
  | 0, _ => []
  | fuel + 1, parent =>
    match parent.bind s.read with
    | none => []
    | some p => p :: s.chain fuel p.parent

/-- The retained causes of a record, nearest first. No chain is longer than the store. -/
def ancestors (s : IndexedStore) (seq : Int) : List Record :=
  s.chain s.records.length ((s.read seq).bind Record.parent)

def size (s : IndexedStore) : Nat := s.records.length

/-- Forget the records of a run. Gives how many there were. -/
def forgetRun (s : IndexedStore) (run : String) : Nat × IndexedStore :=
  match s.byRun.get? run with
  | none => (0, s)
  | some seqs =>
    (seqs.length, { s with
      records := seqs.foldl Table.erase s.records
      byRun := s.byRun.erase run })

theorem depth_appendChild {s : IndexedStore} {seq : Int} {d : Draft} {r : Record}
    (h : (s.appendChild seq d).1 = .ok r) : r.depth = d.depth := by
  unfold appendChild at h
  split at h
  · simp at h
  · simp only [insert, Except.ok.injEq] at h
    rw [← h]

instance : RecordKeeper IndexedStore where
  persist s d :=
    match s.append d with
    | (r, s) => (RecordStore.lift r, s)
  persistChild s seq d :=
    match s.appendChild seq d with
    | (r, s) => (RecordStore.lift r, s)
  ancestors s seq := .ok (s.ancestors seq)
  readRun s run := .ok (s.readRun run)
  forgetRun s run := (.ok (), (s.forgetRun run).2)
  releaseRun s run := (s.forgetRun run).2
  depth_persistChild s seq d r h := by
    cases hs : s.appendChild seq d with
    | mk result next =>
      rw [hs] at h
      cases result with
      | error e => cases h
      | ok r' =>
        cases h
        exact depth_appendChild (by rw [hs])

end IndexedStore

end ConceptSync
