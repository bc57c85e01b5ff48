import ConceptSync.Record.Indexed

set_option autoImplicit false
set_option relaxedAutoImplicit false

/-!
A record store with planned faults. A call that fails changes nothing.
-/

namespace ConceptSync

namespace Script

/-- The messages with which the calls of a store fail. -/
structure Faults where
  persist : Option String := none
  ancestors : Option String := none
  readRun : Option String := none
  forgetRun : Option String := none
  /-- The one keeping of a child that fails, counted from zero. -/
  child : Option (Nat × String) := none
deriving Repr

structure FaultyStore where
  store : IndexedStore
  faults : Faults
  /-- How often a child was to be kept. -/
  childCalls : Nat

namespace FaultyStore

def start (faults : Faults) : FaultyStore := ⟨.empty, faults, 0⟩

/-- The message if the present keeping of a child is to fail. -/
def childFault? (s : FaultyStore) : Option String :=
  match s.faults.child with
  | some (call, message) => if call = s.childCalls then some message else none
  | none => none

def persist (s : FaultyStore) (d : Draft) : Except Failure Record × FaultyStore :=
  match s.faults.persist with
  | some message => (.error (.other message), s)
  | none =>
    match RecordKeeper.persist s.store d with
    | (result, store) => (result, { s with store })

def persistChild (s : FaultyStore) (parent : Int) (d : Draft) :
    Except Failure Record × FaultyStore :=
  let counted := { s with childCalls := s.childCalls + 1 }
  match s.childFault? with
  | some message => (.error (.other message), counted)
  | none =>
    match RecordKeeper.persistChild s.store parent d with
    | (result, store) => (result, { counted with store })

theorem depth_persistChild {s : FaultyStore} {parent : Int} {d : Draft} {r : Record}
    (h : (s.persistChild parent d).1 = .ok r) : r.depth = d.depth := by
  unfold persistChild at h
  dsimp only at h
  split at h
  · simp at h
  · exact RecordKeeper.depth_persistChild s.store parent d r h

instance : RecordKeeper FaultyStore where
  persist := persist
  persistChild := persistChild
  ancestors s seq :=
    match s.faults.ancestors with
    | some message => .error (.other message)
    | none => RecordKeeper.ancestors s.store seq
  readRun s run :=
    match s.faults.readRun with
    | some message => .error (.other message)
    | none => RecordKeeper.readRun s.store run
  forgetRun s run :=
    match s.faults.forgetRun with
    | some message => (.error (.other message), s)
    | none =>
      match RecordKeeper.forgetRun s.store run with
      | (result, store) => (result, { s with store })
  releaseRun s run := { s with store := RecordKeeper.releaseRun s.store run }
  depth_persistChild _ _ _ _ h := depth_persistChild h

end FaultyStore

end Script

end ConceptSync
