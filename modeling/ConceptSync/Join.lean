import ConceptSync.Frame

set_option autoImplicit false
set_option relaxedAutoImplicit false

/-!
Joining the frames of a rule's patterns. A rule fires once every pattern contributes a frame and
the frames agree on their common variables. Completions that took part in a firing are consumed;
frames that joined nothing stay pending.
-/

namespace ConceptSync

/-- A frame that waits in a slot, made by the completion `seq`. -/
structure Pending where
  seq : Int
  frame : Frame
deriving Repr

/-- A joined frame and the completions it was made from, one for each slot. -/
structure Joined where
  frame : Frame
  seqs : List Int
deriving Repr

/-- The pending frames of each pattern of one rule in one run. -/
structure JoinState where
  slots : List (List Pending)
deriving Repr

namespace JoinState

def empty (patterns : Nat) : JoinState := ⟨List.replicate patterns []⟩

/-- Join a partial combination with a pending frame. -/
def extendWith? (partialJoin : Joined) (pending : Pending) : Option Joined :=
  -- one completion fills one slot only
  if pending.seq ∈ partialJoin.seqs then none
  else (partialJoin.frame.merge? pending.frame).map fun frame =>
    ⟨frame, partialJoin.seqs ++ [pending.seq]⟩

/-- Join every partial combination with every pending frame of a slot. -/
def extend (partials : List Joined) (slot : List Pending) : List Joined :=
  partials.flatMap fun j => slot.filterMap (extendWith? j)

/-- All combinations of a frame with one pending frame of every other slot. -/
def combinations (state : JoinState) (index : Nat) (seq : Int) (frame : Frame) : List Joined :=
  (state.slots.eraseIdx index).foldl extend [⟨frame, [seq]⟩]

def hold (state : JoinState) (index : Nat) (pending : Pending) : JoinState :=
  ⟨state.slots.modify index (· ++ [pending])⟩

def consume (state : JoinState) (seqs : List Int) : JoinState :=
  ⟨state.slots.map fun slot => slot.filter fun p => decide (p.seq ∉ seqs)⟩

/-- Offer a frame that the completion `seq` made for a pattern. Gives the combinations it
completes; the frame stays pending if there are none. -/
def offer (state : JoinState) (index : Nat) (seq : Int) (frame : Frame) :
    List Joined × JoinState :=
  match state.combinations index seq frame with
  | [] => ([], state.hold index ⟨seq, frame⟩)
  -- the completion offered may itself be pending in another slot, and is consumed there too
  | joined => (joined, state.consume (joined.flatMap Joined.seqs))

def satisfied (state : JoinState) : Nat := state.slots.countP fun slot => !slot.isEmpty

def isIdle (state : JoinState) : Bool := state.satisfied == 0

end JoinState

end ConceptSync
