import ConceptSync.Pattern

set_option autoImplicit false
set_option relaxedAutoImplicit false

/-!
Frames: what the variables of a rule stand for. Matching a payload against a template extends a
frame; resolving a template in a frame gives a payload back.
-/

namespace ConceptSync

/-- A value for each bound variable. -/
abbrev Frame := Table Var Value

namespace Frame

def empty : Frame := []

def text? (f : Frame) (v : Var) : Option String := (f.get? v).bind Value.asString?

def isPresent (f : Frame) (v : Var) : Bool :=
  match f.get? v with
  | some value => !value.isNull
  | none => false

/-- Bind a variable. A bound variable keeps its value, and only takes an equal one. -/
def bind? (f : Frame) (v : Var) (value : Value) : Option Frame :=
  match f.get? v with
  | some bound => if bound.equals value then some f else none
  | none => some (f.insert v value)

def bindAll? (f : Frame) : List (Var × Value) → Option Frame
  | [] => some f
  | (v, value) :: rest =>
    match f.bind? v value with
    | some g => g.bindAll? rest
    | none => none

/-- The union of two frames that agree on their common variables. -/
def merge? (f g : Frame) : Option Frame := f.bindAll? g

/-- Match the fields of a payload one after the other. Gives the frame as far as it went and
whether every field matched. -/
def matchFields (f : Frame) : Template → Payload → Frame × Bool
  | [], _ => (f, true)
  | (field, term) :: rest, payload =>
    match payload.get? field with
    | none => (f, false)
    | some actual =>
      match term with
      | .literal expected =>
        if expected.equals actual then matchFields f rest payload else (f, false)
      | .var v =>
        match f.bind? v actual with
        | some g => matchFields g rest payload
        | none => (f, false)

/-- The frame extended by what a template demands of a payload. -/
def match? (f : Frame) (template : Template) (payload : Payload) : Option Frame :=
  match f.matchFields template payload with
  | (g, true) => some g
  | (_, false) => none

def resolveTerm (f : Frame) : Term → Except EngineError Value
  | .literal value => .ok value
  | .var v =>
    match f.get? v with
    | some value => .ok value
    | none => .error (.unbound v)

/-- A template with its variables replaced by their values. The first unbound variable in field
order is an error. -/
def resolve (f : Frame) : Template → Except EngineError Payload
  | [] => .ok []
  | (field, term) :: rest =>
    match f.resolveTerm term with
    | .error e => .error e
    | .ok value =>
      match resolve f rest with
      | .error e => .error e
      | .ok payload => .ok ((field, value) :: payload)

/-- Resolve the input templates of several patterns, all of them or none. -/
def resolveAll (f : Frame) : List Pattern → Except EngineError (List (ActionId × Payload))
  | [] => .ok []
  | p :: rest =>
    match f.resolve p.input with
    | .error e => .error e
    | .ok input =>
      match resolveAll f rest with
      | .error e => .error e
      | .ok inputs => .ok ((p.action, input) :: inputs)

end Frame

/-- Match a completion of an action against a pattern: a frame of every binding the pattern makes,
nothing when the action, the outcome, a literal or a repeated variable disagrees or a field is
absent. -/
def Pattern.unify? (p : Pattern) (action : ActionId) (input output : Payload) : Option Frame :=
  if p.action ≠ action then none
  else if !p.outcome.admits output then none
  else (Frame.empty.match? p.input input).bind fun f => f.match? p.output output

end ConceptSync
