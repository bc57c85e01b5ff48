import ConceptSync.Registry
import ConceptSync.World

set_option autoImplicit false
set_option relaxedAutoImplicit false

/-!
Concepts described by data. Each operation says what it answers to which inputs. Scripted concepts
share one state: a log of everything they were asked, and a flag that one of them may set to have
the present run stopped.
-/

namespace ConceptSync

namespace Script

/-- An operation that was called, by its qualified name, and its input. -/
structure Call where
  operation : String
  input : Payload
deriving Repr

structure State where
  calls : List Call
  cancelled : Bool
deriving Repr

def State.empty : State := ⟨[], false⟩

abbrev ScriptWorld := World State

def State.log (s : State) (operation : String) (input : Payload) : State :=
  { s with calls := s.calls ++ [⟨operation, input⟩] }

/-- Bodies for inputs with certain fields, and one for all other inputs. -/
structure Cases (β : Type) where
  cases : List (Payload × β)
  otherwise : β

/-- Whether an input has every field of a condition with the identical value. -/
def holds (condition : Payload) (input : Payload) : Bool :=
  condition.all fun (field, value) =>
    match input.get? field with
    | some actual => actual.identical value
    | none => false

def Cases.select {β : Type} (c : Cases β) (input : Payload) : β :=
  match c.cases.find? fun e => holds e.1 input with
  | some (_, body) => body
  | none => c.otherwise

/-- What an action does: it may set the flag, it may crash, and otherwise its output is made from
its input in the order of the fields below. -/
structure ActionBody where
  cancels : Bool := false
  /-- The messages of a crash, outermost first. -/
  crash : Option (List String) := none
  /-- Whether the output starts as the input. -/
  echoes : Bool := false
  set : Payload := []
  /-- Fields of the output with the input fields that they are copied from. -/
  copies : List (String × String) := []
  /-- Integer fields of the input with what is added to them. -/
  increments : List (String × Int) := []
  /-- Numeric fields of the input that are put out as floating point numbers. -/
  floats : List String := []
  drops : List String := []
deriving Repr

namespace ActionBody

def copyField (input output : Payload) (target source : String) : Payload :=
  match input.get? source with
  | some value => output.insert target value
  | none => output

def incrementField (input output : Payload) (field : String) (amount : Int) : Payload :=
  match (input.get? field).bind Value.asSigned? with
  | some n => output.insert field (.ofInt (n + amount))
  | none => output

def floatField (input output : Payload) (field : String) : Payload :=
  match (input.get? field).bind Value.asDouble? with
  | some x => output.insert field (.ofDouble x)
  | none => output

def output (b : ActionBody) (input : Payload) : Payload :=
  let output := Table.update (if b.echoes then input else []) b.set
  let output := b.copies.foldl (fun out e => copyField input out e.1 e.2) output
  let output := b.increments.foldl (fun out e => incrementField input out e.1 e.2) output
  let output := b.floats.foldl (floatField input) output
  b.drops.foldl Table.erase output

def run (b : ActionBody) (input : Payload) : Effect ScriptWorld Payload := do
  World.onState fun s => ((), { s with cancelled := s.cancelled || b.cancels })
  match b.crash with
  | some chain => .fail (.ofChain chain)
  | none => pure (b.output input)

end ActionBody

/-- What a query answers: it may crash, and otherwise gives rows, over the input on demand. -/
structure QueryBody where
  crash : Option (List String) := none
  rows : List Payload := []
  /-- Whether the fields of the input are put over each row. -/
  withInput : Bool := false
deriving Repr

def QueryBody.run (b : QueryBody) (input : Payload) : Effect ScriptWorld (List Payload) :=
  match b.crash with
  | some chain => .fail (.ofChain chain)
  | none => pure (if b.withInput then b.rows.map fun row => Table.update row input else b.rows)

inductive Body where
  | action (cases : Cases ActionBody)
  | query (cases : Cases QueryBody)

structure ScriptedOperation where
  name : String
  input : Option (List String)
  output : Option (List String)
  body : Body

namespace ScriptedOperation

def kind (op : ScriptedOperation) : OperationKind :=
  match op.body with
  | .action _ => .action
  | .query _ => .query

def declared (op : ScriptedOperation) : Operation :=
  { name := op.name, kind := op.kind, input := op.input, output := op.output }

def action? (op : ScriptedOperation) (name : String) : Option (Cases ActionBody) :=
  match op.body with
  | .action cases => if op.name = name then some cases else none
  | .query _ => none

def query? (op : ScriptedOperation) (name : String) : Option (Cases QueryBody) :=
  match op.body with
  | .query cases => if op.name = name then some cases else none
  | .action _ => none

end ScriptedOperation

/-- A concept given by its operations. -/
structure ScriptedConcept where
  name : String
  operations : List ScriptedOperation

namespace ScriptedConcept

def logged (c : ScriptedConcept) (operation : String) (input : Payload) :
    Effect ScriptWorld Unit :=
  World.onState fun s => ((), s.log (qualifiedName c.name operation) input)

def perform (c : ScriptedConcept) (name : String) (input : Payload) :
    Effect ScriptWorld Payload := do
  c.logged name input
  -- of several operations of one kind and name the first is run
  match c.operations.findSome? fun op => op.action? name with
  | some cases => (cases.select input).run input
  | none => .fail (.other (c.name ++ " has no action " ++ name))

def ask (c : ScriptedConcept) (name : String) (input : Payload) :
    Effect ScriptWorld (List Payload) := do
  c.logged name input
  match c.operations.findSome? fun op => op.query? name with
  | some cases => (cases.select input).run input
  | none => .fail (.other (c.name ++ " has no query " ++ name))

def concept (c : ScriptedConcept) : Concept ScriptWorld where
  name := c.name
  operations := c.operations.map ScriptedOperation.declared
  perform := c.perform
  query := c.ask

end ScriptedConcept

end Script

end ConceptSync
