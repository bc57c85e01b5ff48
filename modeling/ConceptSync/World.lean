import ConceptSync.Effect
import ConceptSync.Record.Uuid
import ConceptSync.Requesting.Table

set_option autoImplicit false
set_option relaxedAutoImplicit false

/-!
The world that concepts act on: clocks, the supply of identifiers, the table of open requests, and
the concepts' own state. Waiting moves the running clock; nothing else does.
-/

namespace ConceptSync

/-- Two clocks. The running clock counts milliseconds and moves by waiting alone; the wall clock
counts microseconds since 1970. -/
structure Clock where
  now : Nat
  /-- When the running clock has to stop a computation. -/
  deadline : Option Nat
  wall : Int
deriving Repr

structure World (κ : Type) where
  clock : Clock
  issued : Nat
  requests : RequestTable
  state : κ

namespace World

variable {κ α : Type}

def start (wall : Int) (state : κ) : World κ :=
  ⟨⟨0, none, wall⟩, 0, .empty, state⟩

def freshId : Effect (World κ) String :=
  .step fun w => ((Uuid.issue .item (w.issued + 1)).text, { w with issued := w.issued + 1 })

def now : Effect (World κ) Nat := .read fun w => w.clock.now

/-- The time of the wall clock. No two readings are the same. -/
def wallTime : Effect (World κ) Int :=
  .step fun w =>
    (w.clock.wall + 1, { w with clock := { w.clock with wall := w.clock.wall + 1 } })

/-- Wait until a time of the running clock. A computation that is stopped before is broken off. -/
def waitUntil (time : Nat) : Effect (World κ) Unit := fun w =>
  let reached (t : Nat) : World κ := { w with clock := { w.clock with now := max w.clock.now t } }
  match w.clock.deadline with
  | none => (.ok (), reached time)
  | some deadline =>
    -- the clock stops at the deadline, not at the time that was waited for
    if deadline < time then (.broken .elapsed, reached deadline) else (.ok (), reached time)

def sleep (milliseconds : Nat) : Effect (World κ) Unit := do
  let time ← now
  waitUntil (time + milliseconds)

/-- A step of the request table at the present time. -/
def onRequests (f : Nat → RequestTable → α × RequestTable) : Effect (World κ) α :=
  .step fun w =>
    let (a, requests) := f w.clock.now w.requests
    (a, { w with requests })

def onState (f : κ → α × κ) : Effect (World κ) α :=
  .step fun w =>
    let (a, state) := f w.state
    (a, { w with state })

/-- Wait for the answer of a request until its deadline and collect it. Either way the request is
closed. -/
def awaitResponse (timeout : Nat) (id : String) : Effect (World κ) Payload := do
  match ← onRequests fun _ t => t.collect timeout id with
  | .absent => pure (RequestTable.notFound id)
  | .answer response => pure response
  | .pending deadline =>
    waitUntil deadline
    onRequests fun _ t => (RequestTable.timedOut timeout, t.remove id)

def withDeadline (w : World κ) (deadline : Option Nat) : World κ :=
  { w with clock := { w.clock with deadline } }

/-- The world with a deadline some milliseconds from now, or the one it had if that is nearer. -/
def limit (w : World κ) (milliseconds : Nat) : World κ :=
  let deadline := w.clock.now + milliseconds
  w.withDeadline (some (min deadline (w.clock.deadline.getD deadline)))

/-- The world after some milliseconds of the wall clock alone. -/
def elapse (w : World κ) (milliseconds : Nat) : World κ :=
  { w with clock := { w.clock with wall := w.clock.wall + 1000 * (milliseconds : Int) } }

end World

end ConceptSync
