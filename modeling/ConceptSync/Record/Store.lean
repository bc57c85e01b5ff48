import ConceptSync.Failure
import ConceptSync.Record.Invocation

set_option autoImplicit false
set_option relaxedAutoImplicit false

/-!
The record store. Records are appended in sequence and forgotten run by run. The keeper is what an
engine asks of a store: the operations of its own that may fail, and the release of a run, which
may not.
-/

namespace ConceptSync

/-- All retained records in sequence. Sequence numbers grow across all runs. -/
structure RecordStore where
  latest : Nat
  records : List Record
  /-- The time that new records are stamped with. -/
  clock : Timestamp

namespace RecordStore

def empty : RecordStore := ⟨0, [], .epoch⟩

/-- Append a record with its place in the causal order. -/
def insert (s : RecordStore) (d : Draft) (run : String) (parent causedBy : Option Int) :
    Record × RecordStore :=
  let seq := s.latest + 1
  let r : Record :=
    { seq := seq
      id := .issue .record seq
      ts := s.clock
      action := d.action
      parent := parent
      causedBy := causedBy
      run := run
      depth := d.depth
      input := d.input
      output := d.output }
  (r, { s with latest := seq, records := s.records ++ [r] })

def read (s : RecordStore) (seq : Int) : Option Record := s.records.find? fun r => r.seq == seq

/-- Append a record without parent. It needs a run. -/
def append (s : RecordStore) (d : Draft) : Except StoreError Record × RecordStore :=
  match d.run with
  | none => (.error (.missingRunId d.action), s)
  | some run =>
    let (r, s) := s.insert d run none none
    (.ok r, s)

/-- Append a record caused by another. It belongs to its parent's run unless it names its own, and
its chain starts where its parent's does. -/
def appendChild (s : RecordStore) (parent : Int) (d : Draft) :
    Except StoreError Record × RecordStore :=
  match s.read parent with
  | none => (.error (.parentNotFound parent), s)
  | some p =>
    let (r, s) := s.insert d (d.run.getD p.run) (some parent) (some (p.causedBy.getD p.seq))
    (.ok r, s)

def readRun (s : RecordStore) (run : String) : List Record := s.records.filter fun r => r.run == run

def children (s : RecordStore) (parent : Int) : List Record :=
  s.records.filter fun r => r.parent == some parent

/-- A record and the records whose chain starts at it. -/
def tree (s : RecordStore) (root : Int) : List Record :=
  s.records.filter fun r => r.seq == root || r.causedBy == some root

/-- The retained records from a parent upwards. -/
def chain (s : RecordStore) : Nat → Option Int → List Record
  | 0, _ => []
  | fuel + 1, parent =>
    match parent.bind s.read with
    | none => []
    | some p => p :: s.chain fuel p.parent

/-- The retained causes of a record, nearest first. No chain is longer than the store. -/
def ancestors (s : RecordStore) (seq : Int) : List Record :=
  s.chain s.records.length ((s.read seq).bind Record.parent)

def size (s : RecordStore) : Nat := s.records.length

def isEmpty (s : RecordStore) : Bool := s.records.isEmpty

/-- Forget the records of a run. Gives how many there were. -/
def forgetRun (s : RecordStore) (run : String) : Nat × RecordStore :=
  ((s.readRun run).length, { s with records := s.records.filter fun r => r.run != run })

end RecordStore

/-- What an engine asks of the store that keeps its records. -/
class RecordKeeper (π : Type) where
  persist : π → Draft → Except Failure Record × π
  persistChild : π → Int → Draft → Except Failure Record × π
  ancestors : π → Int → Except Failure (List Record)
  readRun : π → String → Except Failure (List Record)
  forgetRun : π → String → Except Failure Unit × π
  /-- Drop the records of a run that did not settle. -/
  releaseRun : π → String → π
  /-- A kept child has the depth it was given. -/
  depth_persistChild : ∀ (p : π) (seq : Int) (d : Draft) (r : Record),
    (persistChild p seq d).1 = .ok r → r.depth = d.depth

namespace RecordStore

def lift {α : Type} : Except StoreError α → Except Failure α
  | .ok a => .ok a
  | .error e => .error (.store e)

theorem depth_appendChild {s : RecordStore} {seq : Int} {d : Draft} {r : Record}
    (h : (s.appendChild seq d).1 = .ok r) : r.depth = d.depth := by
  unfold appendChild at h
  split at h
  · simp at h
  · simp only [insert, Except.ok.injEq] at h
    rw [← h]

instance : RecordKeeper RecordStore where
  persist s d :=
    match s.append d with
    | (r, s) => (lift r, s)
  persistChild s seq d :=
    match s.appendChild seq d with
    | (r, s) => (lift r, s)
  ancestors s seq := .ok (s.ancestors seq)
  readRun s run := .ok (s.readRun run)
  forgetRun s run := (.ok (), (s.forgetRun run).2)
  releaseRun s run := (s.forgetRun run).2
  depth_persistChild s seq d r h := by
    cases hs : s.appendChild seq d with
    | mk result next =>
      rw [hs] at h
      cases result with
      | error e => cases h
      | ok r' =>
        cases h
        exact depth_appendChild (by rw [hs])

end RecordStore

end ConceptSync
