import ConceptSync.Value

set_option autoImplicit false
set_option relaxedAutoImplicit false

/-!
The table of open requests. A request is opened with a path, answered once and collected once. It
leaves the table when its answer is collected, when a caller waits in vain until its deadline, or
when it is found expired. All times are given in milliseconds by the caller.
-/

namespace ConceptSync

/-- How requests are served. -/
structure RequestingConfig where
  /-- What incoming paths may start with before the part that rules see. -/
  baseUrl : String := "/api"
  /-- How many milliseconds a request stays open. -/
  timeout : Nat := 10000
deriving DecidableEq, Repr

structure OpenRequest where
  id : String
  path : String
  opened : Nat
  response : Option Payload
deriving Repr

structure RequestTable where
  entries : List OpenRequest
deriving Repr

/-- What a caller who waits for an answer finds. -/
inductive Collected where
  | absent
  | answer (response : Payload)
  | pending (deadline : Nat)
deriving Repr

/-- One of several callers who wait for the same answer: done, or still waiting. -/
inductive Waiter where
  | done (response : Payload)
  | waiting (deadline : Nat)
deriving Repr

namespace RequestTable

def empty : RequestTable := ⟨[]⟩

def find? (t : RequestTable) (id : String) : Option OpenRequest :=
  t.entries.find? fun e => e.id == id

def remove (t : RequestTable) (id : String) : RequestTable :=
  ⟨t.entries.filter fun e => e.id != id⟩

/-- Forget every request that was open for the whole timeout. -/
def reap (t : RequestTable) (timeout now : Nat) : RequestTable :=
  ⟨t.entries.filter fun e => decide (now - e.opened < timeout)⟩

/-- Put a request into the table, in place of one with its identifier. -/
def put (t : RequestTable) (e : OpenRequest) : RequestTable :=
  ⟨(t.remove e.id).entries ++ [e]⟩

/-- Open a request under a new identifier. The input must have a text `path`. -/
def request (t : RequestTable) (timeout now : Nat) (id : String) (input : Payload) :
    Payload × RequestTable :=
  match input.string? "path" with
  -- an opening that is refused reaps nothing
  | none => (.error "path is required", t)
  | some path =>
    (.single "request" (.string id), (t.reap timeout now).put ⟨id, path, now, none⟩)

def attach (t : RequestTable) (id : String) (response : Payload) : RequestTable :=
  ⟨t.entries.map fun e => if e.id = id then { e with response := some response } else e⟩

/-- Answer the request that the input names with the rest of the input. The first answer stays. -/
def respond (t : RequestTable) (input : Payload) : Payload × RequestTable :=
  match input.string? "request" with
  | none => (.error "request is required", t)
  | some id =>
    match t.find? id with
    | none => (.error ("Request " ++ id ++ " not found"), t)
    | some e =>
      match e.response with
      | some _ => (.error ("Request " ++ id ++ " already has a response"), t)
      | none => (.single "request" (.string id), t.attach id (input.erase "request"))

/-- The answer of an open request, which stays in the table. -/
def peek (t : RequestTable) (id : String) : Option Payload := (t.find? id).bind OpenRequest.response

/-- How many requests are open, after forgetting the expired ones. -/
def openCount (t : RequestTable) (timeout now : Nat) : Nat × RequestTable :=
  let t := t.reap timeout now
  (t.entries.length, t)

/-- Look for an answer and collect it. A request that has none can be waited for until its
deadline. -/
def collect (t : RequestTable) (timeout : Nat) (id : String) : Collected × RequestTable :=
  match t.find? id with
  | none => (.absent, t)
  | some e =>
    match e.response with
    | some response => (.answer response, t.remove id)
    | none => (.pending (e.opened + timeout), t)

def notFound (id : String) : Payload := .error ("Request " ++ id ++ " not found")

def timedOut (timeout : Nat) : Payload :=
  (Payload.error ("Request timed out after " ++ toString timeout ++ "ms")).insert "status"
    (.ofInt 504)

/-- Start to wait: at once with an answer, or pending until the deadline if that is still to
come. -/
def startWaiting (t : RequestTable) (timeout now : Nat) (id : String) : Waiter × RequestTable :=
  match t.collect timeout id with
  | (.absent, t) => (.done (notFound id), t)
  | (.answer response, t) => (.done response, t)
  | (.pending deadline, t) =>
    if now < deadline then (.waiting deadline, t) else (.done (timedOut timeout), t.remove id)

def startAll (timeout now : Nat) (id : String) : Nat → RequestTable → List Waiter × RequestTable
  | 0, t => ([], t)
  | n + 1, t =>
    let (w, t) := t.startWaiting timeout now id
    let (ws, t) := startAll timeout now id n t
    (w :: ws, t)

/-- Waiters give up once the time is past their deadline. The request leaves the table with the
first of them. -/
def giveUp (timeout now : Nat) (id : String) : List Waiter → RequestTable → List Waiter × RequestTable
  | [], t => ([], t)
  | .done response :: rest, t =>
    let (ws, t) := giveUp timeout now id rest t
    (.done response :: ws, t)
  | .waiting deadline :: rest, t =>
    if deadline < now then
      let (ws, t) := giveUp timeout now id rest (t.remove id)
      (.done (timedOut timeout) :: ws, t)
    else
      let (ws, t) := giveUp timeout now id rest t
      (.waiting deadline :: ws, t)

/-- An answer wakes the caller who waits longest. -/
def wake (timeout : Nat) (id : String) : List Waiter → RequestTable → List Waiter × RequestTable
  | [], t => ([], t)
  | .done response :: rest, t =>
    let (ws, t) := wake timeout id rest t
    (.done response :: ws, t)
  | .waiting deadline :: rest, t =>
    match t.collect timeout id with
    -- the answer is collected, so the callers behind wait on in vain
    | (.answer response, t) => (.done response :: rest, t)
    | (_, t) => (.waiting deadline :: rest, t)

/-- The latest deadline that is still waited for, at least `now`. -/
def lastDeadline (now : Nat) (ws : List Waiter) : Nat :=
  ws.foldl (fun latest w => match w with
    | .waiting deadline => max latest deadline
    | .done _ => latest) now

/-- What each caller got in the end, the waiting ones in vain. -/
def outcomes (timeout : Nat) (ws : List Waiter) : List Payload :=
  ws.map fun w => match w with
    | .done response => response
    | .waiting _ => timedOut timeout

/-- Several callers wait for a request while an answer comes later. Gives what they get, what the
answering gets, and the time when all are done. -/
def awaitWhileResponding (t : RequestTable) (timeout now : Nat) (id : String) (callers delay : Nat)
    (input : Payload) : (List Payload × Payload × Nat) × RequestTable :=
  let later := now + delay
  let (ws, t) := startAll timeout now id callers t
  let (ws, t) := giveUp timeout later id ws t
  let (answer, t) := t.respond input
  let (ws, t) := wake timeout id ws t
  let finished := lastDeadline later ws
  let (ws, t) := giveUp timeout (finished + 1) id ws t
  ((outcomes timeout ws, answer, finished), t)

end RequestTable

end ConceptSync
