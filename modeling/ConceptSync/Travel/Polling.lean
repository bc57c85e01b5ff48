import ConceptSync.Machine

set_option autoImplicit false
set_option relaxedAutoImplicit false

/-!
Polls. The creator adds options and closes the poll; until then every user has one vote for one of
the options, and may change it.
-/

namespace ConceptSync

namespace Travel

structure Poll where
  name : String
  creator : String
  options : List String
  votes : Table String String
  closed : Bool
deriving Repr

abbrev Polling := Table String Poll

def Poll.document (id : String) (poll : Poll) : Value :=
  .object <| Table.ofList
    [("_id", .string id), ("name", .string poll.name), ("creator", .string poll.creator),
      ("options", .array (poll.options.map Value.string)),
      ("votes", .object (poll.votes.map fun v => (v.1, .string v.2))),
      ("closed", .bool poll.closed)]

namespace Polling

def notFound (id : String) : Payload := .error ("Poll " ++ id ++ " not found.")

def create (id : String) (input : Payload) (polls : Polling) : Payload × Polling :=
  match input.text? "user", input.text? "name" with
  | some creator, some name =>
    (.single "poll" (.string id), polls.insert id ⟨name, creator, [], [], false⟩)
  | _, _ => (.error "user and name are required.", polls)

/-- Add an option to a poll of its creator. -/
def addOption (_ : String) (input : Payload) (polls : Polling) : Payload × Polling :=
  match input.text? "actingUser", input.text? "poll", input.text? "label" with
  | some user, some id, some label =>
    match polls.get? id with
    | none => (notFound id, polls)
    | some poll =>
      if poll.creator ≠ user then (.error "Only the poll creator can add options.", polls)
      else if label ∈ poll.options then
        (.error ("Option " ++ label ++ " already exists."), polls)
      else ([], polls.insert id { poll with options := poll.options ++ [label] })
  | _, _, _ => (.error "actingUser, poll and label are required.", polls)

/-- Vote for an option of an open poll. The user's earlier vote is replaced. -/
def addVote (_ : String) (input : Payload) (polls : Polling) : Payload × Polling :=
  match input.text? "user", input.text? "poll", input.text? "option" with
  | some user, some id, some option =>
    match polls.get? id with
    | none => (notFound id, polls)
    | some poll =>
      if poll.closed then (.error "Poll is closed.", polls)
      else if option ∈ poll.options then
        ([], polls.insert id { poll with votes := poll.votes.insert user option })
      else (.error ("Option " ++ option ++ " is not part of this poll."), polls)
  | _, _, _ => (.error "user, poll and option are required.", polls)

def close (_ : String) (input : Payload) (polls : Polling) : Payload × Polling :=
  match input.text? "actingUser", input.text? "poll" with
  | some user, some id =>
    match polls.get? id with
    | none => (notFound id, polls)
    | some poll =>
      if poll.creator = user then ([], polls.insert id { poll with closed := true })
      else (.error "Only the poll creator can close it.", polls)
  | _, _ => (.error "actingUser and poll are required.", polls)

/-- The poll of an identifier, else a poll of that name. -/
def find? (polls : Polling) (key : String) : Option (String × Poll) :=
  match polls.get? key with
  | some poll => some (key, poll)
  | none => List.find? (fun e => e.2.name == key) polls

def getPoll (input : Payload) (polls : Polling) : List Payload :=
  ((input.text? "poll").bind polls.find?).toList.map fun e =>
    .single "poll" (e.2.document e.1)

def machine : Machine Polling where
  name := "Polling"
  operations :=
    [((Operation.action "create").takes ["user", "name"]).gives ["poll"],
      (Operation.action "addOption").takes ["actingUser", "poll", "label"],
      (Operation.action "addVote").takes ["user", "poll", "option"],
      (Operation.action "close").takes ["actingUser", "poll"],
      ((Operation.query "_getPoll").takes ["poll"]).gives ["poll"]]
  action?
    | "create" => some create
    | "addOption" => some addOption
    | "addVote" => some addVote
    | "close" => some close
    | _ => none
  query?
    | "_getPoll" => some getPoll
    | _ => none

end Polling

end Travel

end ConceptSync
