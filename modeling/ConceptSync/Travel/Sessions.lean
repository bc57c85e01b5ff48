import ConceptSync.Machine

set_option autoImplicit false
set_option relaxedAutoImplicit false

/-!
Sessions. A session names a user until it is destroyed or its time is over; a session found expired
is forgotten. All times are microseconds of the wall clock.
-/

namespace ConceptSync

namespace Travel

structure Session where
  user : String
  expiry : Option Int
deriving Repr

abbrev Sessions := Table String Session

namespace Sessions

def endOfTime : Int := 8210266876799999999

/-- The lifetime in whole milliseconds, at most what 64 bits hold. None if it is not positive. -/
def lifetime? (input : Payload) : Option Int :=
  ((input.number? "ttlSeconds").filter fun ttl => Double.zero.lt ttl).map fun ttl =>
    min (ttl.mul (Double.ofInt 1000)).truncate 0x7FFFFFFFFFFFFFFF

/-- When a session that is opened now ends: never, at a time, or after the end of the calendar. -/
def expiry? (now : Int) (input : Payload) : Option (Option Int) :=
  match lifetime? input with
  | none => some none
  | some ms => if endOfTime < now + ms * 1000 then none else some (some (now + ms * 1000))

/-- Open a session under a token, to end at a time. -/
def opened (token user : String) (expiry : Option Int) (sessions : Sessions) : Sessions :=
  sessions.insert token ⟨user, expiry⟩

/-- The user of a session at a time. -/
def userOf (now : Int) (token : String) (sessions : Sessions) : Option String × Sessions :=
  match sessions.get? token with
  | none => (none, sessions)
  | some session =>
    match session.expiry with
    | none => (some session.user, sessions)
    | some expiry =>
      if expiry < now then (none, sessions.erase token) else (some session.user, sessions)

variable {κ : Type}

/-- Open a session for the user that the input names. A lifetime past the end of the calendar
panics. -/
def create (part : Part κ Sessions) (input : Payload) : Effect (World κ) Payload :=
  match input.text? "user" with
  | none => pure (.error "user is required.")
  | some user => do
    let now ← World.wallTime
    match expiry? now input with
    | none => .breakOff (.panicked (some "the expiry date overflows"))
    | some expiry =>
      -- no token is issued for a session that cannot be opened
      let token ← World.freshId
      World.onState fun state =>
        (.single "session" (.string token),
          part.set state (opened token user expiry (part.get state)))

def resolve (part : Part κ Sessions) (token : String) : Effect (World κ) (Option String) := do
  let now ← World.wallTime
  World.onState fun state =>
    let (user, sessions) := userOf now token (part.get state)
    (user, part.set state sessions)

/-- The user of the session that the input names, no field if there is none. -/
def validate (part : Part κ Sessions) (input : Payload) : Effect (World κ) Payload :=
  match input.text? "session" with
  | none => pure []
  | some token => do
    match ← resolve part token with
    | some user => pure (.single "user" (.string user))
    | none => pure []

def destroy (part : Part κ Sessions) (input : Payload) : Effect (World κ) Payload :=
  World.onState fun state =>
    let sessions := match input.text? "session" with
      | some token => (part.get state).erase token
      | none => part.get state
    (.single "ok" (.bool true), part.set state sessions)

def name : String := "Session"

def operations : List Operation :=
  [((Operation.action "create").takes ["user", "ttlSeconds"]).gives ["session"],
    ((Operation.action "validate").takes ["session"]).gives ["user"],
    ((Operation.action "destroy").takes ["session"]).gives ["ok"]]

def perform (part : Part κ Sessions) (action : String) (input : Payload) :
    Effect (World κ) Payload :=
  match action with
  | "create" => create part input
  | "validate" => validate part input
  | "destroy" => destroy part input
  | _ => .fail (.other (name ++ " has no action " ++ action))

def concept (part : Part κ Sessions) : Concept (World κ) where
  name := name
  operations := operations
  perform := perform part
  query query _ := .fail (.other (name ++ " has no query " ++ query))

end Sessions

end Travel

end ConceptSync
