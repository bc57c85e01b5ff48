import ConceptSync.Script.Concept
import ConceptSync.Script.Rule
import ConceptSync.Script.Store

set_option autoImplicit false
set_option relaxedAutoImplicit false

/-!
Scripted concepts, rules and faults read from documents. A part that a document leaves out, or
gives in another shape, is empty.
-/

namespace ConceptSync

namespace Value

/-- A field of an object, null where there is none. -/
def part (v : Value) (name : String) : Value := (v.field? name).getD .null

def textOrEmpty (v : Value) : String := v.asString?.getD ""

def fieldsOrNone (v : Value) : Payload := v.asObject?.getD []

def itemsOrNone (v : Value) : List Value := v.asArray?.getD []

/-- An item of a list, null where there is none. -/
def item (v : Value) (index : Nat) : Value := v.itemsOrNone[index]?.getD .null

def natOrZero (v : Value) : Nat := v.asUnsigned?.getD 0

def intOrZero (v : Value) : Int := v.asSigned?.getD 0

def isTrue (v : Value) : Bool := v.asBool?.getD false

def textItems (v : Value) : List String := v.itemsOrNone.map textOrEmpty

/-- The texts of a list, nothing if there is no list. -/
def textItems? (v : Value) : Option (List String) := v.asArray?.map (List.map textOrEmpty)

end Value

namespace Script

def outcomeOf (v : Value) : OutcomeFilter :=
  match v.textOrEmpty with
  | "succeeded" => .success
  | "failed" => .error
  | _ => .any

def ActionName.ofValue : Value → ActionName
  | .string s => .dotted s
  | other => .raw ⟨other.natOrZero⟩

def PatternSpec.ofValue (v : Value) : PatternSpec :=
  { action := .ofValue (v.part "action")
    before := outcomeOf (v.part "pre")
    input := (v.part "input").fieldsOrNone
    output := (v.part "output").fieldsOrNone
    after := outcomeOf (v.part "outcome") }

/-- A question given by its kind, a variable and what it asks. -/
def TestSpec.ofValue (v : Value) : TestSpec :=
  let name := (v.item 1).textOrEmpty
  match (v.item 0).textOrEmpty with
  | "present" => .present name
  | "contains" => .bound name
  | "eq" => .equals name (v.item 2)
  | _ => .text name (v.item 2).asString?

def Cases.ofValue {β : Type} (body : Value → β) (v : Value) : Cases β :=
  { cases := (v.part "cases").itemsOrNone.map fun c => ((c.part "if").fieldsOrNone, body c)
    otherwise := body v }

def QueryBody.ofValue (v : Value) : QueryBody :=
  { crash := (v.part "fail").textItems?
    rows := (v.part "rows").itemsOrNone.map Value.fieldsOrNone
    withInput := (v.part "with_input").isTrue }

def ActionBody.ofValue (v : Value) : ActionBody :=
  { cancels := (v.part "cancel").isTrue
    crash := (v.part "fail").textItems?
    echoes := (v.part "echo").isTrue
    set := (v.part "set").fieldsOrNone
    copies := (v.part "copy").fieldsOrNone.map fun e => (e.1, e.2.textOrEmpty)
    increments := (v.part "inc").fieldsOrNone.map fun e => (e.1, e.2.intOrZero)
    floats := (v.part "float").textItems
    drops := (v.part "drop").textItems }

def Body.ofValue (kind : String) (script : Value) : Body :=
  if kind = "query" then .query (.ofValue QueryBody.ofValue script)
  else .action (.ofValue ActionBody.ofValue script)

def ScriptedOperation.ofValue (v : Value) : ScriptedOperation :=
  { name := (v.part "name").textOrEmpty
    input := (v.part "input").textItems?
    output := (v.part "output").textItems?
    body := .ofValue (v.part "kind").textOrEmpty (v.part "do") }

def ScriptedConcept.ofValue (v : Value) : ScriptedConcept :=
  { name := (v.part "name").textOrEmpty
    operations := (v.part "ops").itemsOrNone.map ScriptedOperation.ofValue }

/-- A query of a refinement: one of the registry by its name, or one with a script of its own. -/
def queryStep (v : Value) : StepSpec State :=
  let input := (v.part "in").fieldsOrNone
  let output := (v.part "out").fieldsOrNone
  match v.field? "from" with
  | some dotted => .query dotted.textOrEmpty input output
  | none =>
    let cases : Cases QueryBody := .ofValue QueryBody.ofValue (v.part "script")
    .given (fun args => (cases.select args).run args) input output

def StepSpec.ofValue (v : Value) : StepSpec State :=
  match v.fieldsOrNone with
  | [("filter", test)] => .keep (.ofValue test)
  | [("filter_not", test)] => .discard (.ofValue test)
  | [("set", a)] => .set (a.item 0).textOrEmpty (a.item 1)
  | [("field", a)] =>
    .field (a.item 0).textOrEmpty (a.item 1).textOrEmpty (a.item 2).textOrEmpty
  | [("fail_if", a)] => .failIf (a.item 0).textOrEmpty (a.item 1) (a.item 2).textOrEmpty
  | [("dup", _)] => .double
  | [("reverse", _)] => .reverse
  | [("query", asked)] => queryStep asked
  | [("sleep", time)] => .sleep time.natOrZero
  | [("fail", chain)] => .fail (.ofChain chain.textItems)
  | [("raise", message)] => .fail (.engine (.invalidPayload message.textOrEmpty))
  | [("raise_in", a)] =>
    .fail ((Failure.engine (.invalidPayload (a.item 0).textOrEmpty)).inContext
      (a.item 1).textOrEmpty)
  | [("panic", message)] => .panic (some message.textOrEmpty)
  | [("panic_static", _)] => .panic (some "static panic")
  | _ => .panic none

def RuleSpec.ofValue (v : Value) : RuleSpec State :=
  { name := (v.part "name").textOrEmpty
    vars := (v.part "vars").textItems
    whenPatterns := (v.part "when").itemsOrNone.map PatternSpec.ofValue
    whereSteps := (v.part "where").asArray?.map (List.map StepSpec.ofValue)
    thenPatterns := (v.part "then").itemsOrNone.map PatternSpec.ofValue }

def Faults.ofValue (v : Value) : Faults :=
  { persist := (v.part "persist").asString?
    ancestors := (v.part "ancestors").asString?
    readRun := (v.part "read_run").asString?
    forgetRun := (v.part "forget_run").asString?
    child := (v.field? "child").map fun c => ((c.item 0).natOrZero, (c.item 1).textOrEmpty) }

end Script

end ConceptSync
