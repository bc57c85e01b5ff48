import ConceptSync.Rule
import ConceptSync.Travel.State

set_option autoImplicit false
set_option relaxedAutoImplicit false

/-!
The two shapes of rules that serve requests. A handler passes a user's request on to an action and
answers with what came of it; a lookup answers with the rows of a query.
-/

namespace ConceptSync

namespace Travel

/-- Completions or invocations of an action. -/
def actionPattern (registry : Registry TravelWorld) (concept action : String) : Builder Pattern := do
  let id ← Builder.ofExcept (registry.action concept action)
  pure (.of id)

/-- Openings of a request for one route. -/
def requestTo (registry : Registry TravelWorld) (path : String) : Builder Pattern := do
  let p ← actionPattern registry "Requesting" "request"
  pure (p.withInput "path" (.literal (.string path)))

def respond (registry : Registry TravelWorld) : Builder Pattern :=
  actionPattern registry "Requesting" "respond"

def queryOf (registry : Registry TravelWorld) (concept query : String) :
    Builder (QueryHandle TravelWorld) :=
  Builder.ofExcept (registry.query concept query)

/-- A pattern with input fields bound to variables. -/
def withInputs (p : Pattern) (fields : List (String × Var)) : Pattern :=
  fields.foldl (fun p f => p.withInput f.1 (.var f.2)) p

/-- A pattern with output fields bound to variables. -/
def withOutputs (p : Pattern) (fields : List (String × Var)) : Pattern :=
  fields.foldl (fun p f => p.withOutput f.1 (.var f.2)) p

/-- Frames in which a variable stands for something other than null. -/
def whenPresent (v : Var) : Refinement TravelWorld := fun frames =>
  pure (frames.filter fun f => f.isPresent v)

/-- A route that passes requests of users on to an action. -/
structure Handler where
  /-- What the names of its three rules begin with. -/
  name : String
  concept : String
  action : String
  /-- The input field of the action that takes the user. -/
  actor : Option String
  /-- The fields that the request must have and the action is given. -/
  given : List String
  /-- The fields of a success answer, each with the field of the action it repeats. -/
  answers : List (String × String)
  /-- Whether answers repeat the action's output rather than its input. -/
  fromOutput : Bool
deriving Repr

namespace Handler

def path (h : Handler) : String := "/" ++ h.concept ++ "/" ++ h.action

/-- Pass a request of a user on to the action. -/
def passOn (h : Handler) : RuleDefinition TravelWorld where
  name := h.name ++ "Request"
  build registry := do
    let user ← Builder.var "user"
    let given := h.given.zip (← Builder.vars h.given)
    let request ← requestTo registry h.path
    let action ← actionPattern registry h.concept h.action
    let actor := h.actor.toList.map fun field => (field, user)
    pure
      { whenPatterns := [withInputs request (("user", user) :: given)]
        whereClause := some (whenPresent user)
        thenPatterns := [withInputs action (actor ++ given)] }

/-- Answer a request when its action succeeded. -/
def answerSuccess (h : Handler) : RuleDefinition TravelWorld where
  name := h.name ++ "Response"
  build registry := do
    let request ← Builder.var "request"
    let fields := h.answers.map Prod.snd
    let vars ← Builder.vars fields
    let opened ← requestTo registry h.path
    let action ← actionPattern registry h.concept h.action
    -- output fields that only a success has make the pattern one of successes
    let done := if h.fromOutput then withOutputs action (fields.zip vars)
      else (withInputs action (fields.zip vars)).succeeded
    let answer ← respond registry
    pure
      { whenPatterns := [withOutputs opened [("request", request)], done]
        thenPatterns :=
          [withInputs answer (("request", request) :: (h.answers.map Prod.fst).zip vars)] }

/-- Answer a request when its action failed. -/
def answerError (h : Handler) : RuleDefinition TravelWorld where
  name := h.name ++ "ResponseError"
  build registry := do
    let request ← Builder.var "request"
    let error ← Builder.var "error"
    let opened ← requestTo registry h.path
    let action ← actionPattern registry h.concept h.action
    let answer ← respond registry
    pure
      { whenPatterns :=
          [withOutputs opened [("request", request)], withOutputs action [("error", error)]]
        thenPatterns := [withInputs answer [("request", request), ("error", error)]] }

def rules (h : Handler) : List (RuleDefinition TravelWorld) :=
  [h.passOn, h.answerSuccess, h.answerError]

end Handler

/-- A route that answers with the rows of a query. -/
structure Lookup where
  name : String
  concept : String
  query : String
  /-- The field of the request and of the query's input. -/
  key : String
  /-- The field of the query's rows and of the answer. -/
  answer : String
deriving Repr

namespace Lookup

def path (l : Lookup) : String := "/" ++ l.concept ++ "/" ++ l.query

/-- Bind the answer of a query in every frame, null where there is no row. -/
def refine (call : Payload → Effect TravelWorld (List Payload)) (input output : Template)
    (found : Var) : Refinement TravelWorld
  | [] => pure []
  | f :: rest => do
    let rows ← Frame.bridge call input output [f]
    let answered := if rows.isEmpty then [Table.insert f found .null] else rows
    let later ← refine call input output found rest
    pure (answered ++ later)

def rule (l : Lookup) : RuleDefinition TravelWorld where
  name := l.name
  build registry := do
    let request ← Builder.var "request"
    let given ← Builder.var "given"
    let found ← Builder.var "found"
    let source ← queryOf registry l.concept l.query
    let opened ← requestTo registry l.path
    let answer ← respond registry
    let opened := withOutputs (withInputs opened [(l.key, given)]) [("request", request)]
    pure
      { whenPatterns := [opened]
        whereClause :=
          some (refine source.call [(l.key, .var given)] [(l.answer, .var found)] found)
        thenPatterns := [withInputs answer [("request", request), (l.answer, found)]] }

end Lookup

end Travel

end ConceptSync
