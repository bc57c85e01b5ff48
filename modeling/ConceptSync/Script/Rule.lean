import ConceptSync.Registry
import ConceptSync.Script.Refinement

set_option autoImplicit false
set_option relaxedAutoImplicit false

/-!
Rules described by data. A description speaks of variables and operations by name; building it in a
registry makes the variables in the order in which it names them.
-/

namespace ConceptSync

namespace Script

/-- A field of a template: a text after a question mark names a variable, any other value is a
literal. -/
def buildTerm : Value → Builder Term
  | .string s =>
    match s.toList with
    | '?' :: name => do
      let v ← Builder.var (String.ofList name)
      pure (.var v)
    | _ => pure (.literal (.string s))
  | value => pure (.literal value)

/-- The template of an object, its variables made in field order. -/
def buildTemplate : Payload → Builder Template
  | [] => pure []
  | (field, value) :: rest => do
    let term ← buildTerm value
    let rest ← buildTemplate rest
    pure ((field, term) :: rest)

/-- An action by its identity or by its dotted name. -/
inductive ActionName where
  | raw (id : ActionId)
  | dotted (name : String)
deriving Repr

def ActionName.resolve {σ : Type} (registry : Registry σ) : ActionName → Builder ActionId
  | raw id => pure id
  | dotted name =>
    let (concept, action) := Text.splitQualified name
    .ofExcept (registry.action concept action)

/-- A pattern: an outcome that is asked for before the fields are named, the fields, and an outcome
that is asked for after them. -/
structure PatternSpec where
  action : ActionName
  before : OutcomeFilter := .any
  input : Payload := []
  output : Payload := []
  after : OutcomeFilter := .any
deriving Repr

namespace PatternSpec

/-- Ask for an outcome; any outcome asks for nothing. -/
def restrict (p : Pattern) : OutcomeFilter → Pattern
  | .any => p
  | .success => p.succeeded
  | .error => p.failed

def build {σ : Type} (spec : PatternSpec) (registry : Registry σ) : Builder Pattern := do
  let action ← spec.action.resolve registry
  let input ← buildTemplate spec.input
  let output ← buildTemplate spec.output
  let p := restrict (.of action) spec.before
  let p := input.foldl (fun p e => p.withInput e.1 e.2) p
  let p := output.foldl (fun p e => p.withOutput e.1 e.2) p
  pure (restrict p spec.after)

def buildAll {σ : Type} (registry : Registry σ) : List PatternSpec → Builder (List Pattern)
  | [] => pure []
  | spec :: rest => do
    let p ← spec.build registry
    let ps ← buildAll registry rest
    pure (p :: ps)

end PatternSpec

/-- A question about one frame, by the names of its variables. -/
inductive TestSpec where
  | present (name : String)
  | bound (name : String)
  | equals (name : String) (value : Value)
  | text (name : String) (expected : Option String)
deriving Repr

def TestSpec.build : TestSpec → Builder FrameTest
  | present name => return .present (← Builder.var name)
  | bound name => return .bound (← Builder.var name)
  | equals name value => return .equals (← Builder.var name) value
  | text name expected => return .text (← Builder.var name) expected

/-- A step of a refinement, by the names of its variables and of what it asks. -/
inductive StepSpec (κ : Type) where
  | keep (test : TestSpec)
  | discard (test : TestSpec)
  | set (name : String) (value : Value)
  | field (target source name : String)
  | failIf (name : String) (value : Value) (message : String)
  | double
  | reverse
  /-- A query by its dotted name. -/
  | query (dotted : String) (input output : Payload)
  /-- A query that is given outright. -/
  | given (call : Payload → Effect (World κ) (List Payload)) (input output : Payload)
  | sleep (milliseconds : Nat)
  | fail (failure : Failure)
  | panic (message : Option String)

namespace StepSpec

variable {κ : Type}

def build (registry : Registry (World κ)) : StepSpec κ → Builder (RefinementStep κ)
  | keep test => return .keep (← test.build)
  | discard test => return .discard (← test.build)
  | set name value => return .set (← Builder.var name) value
  | field target source name => return .field (← Builder.var target) (← Builder.var source) name
  | failIf name value message => return .failIf (← Builder.var name) value message
  | double => pure .double
  | reverse => pure .reverse
  | query dotted input output => do
    let (concept, name) := Text.splitQualified dotted
    let handle ← Builder.ofExcept (registry.query concept name)
    return .query handle.call (← buildTemplate input) (← buildTemplate output)
  | given call input output =>
    return .query call (← buildTemplate input) (← buildTemplate output)
  | sleep milliseconds => pure (.sleep milliseconds)
  | fail failure => pure (.fail failure)
  | panic message => pure (.panic message)

def buildAll (registry : Registry (World κ)) :
    List (StepSpec κ) → Builder (List (RefinementStep κ))
  | [] => pure []
  | spec :: rest => do
    let step ← spec.build registry
    let steps ← buildAll registry rest
    pure (step :: steps)

end StepSpec

/-- A rule: variables that are made first, and its clauses. -/
structure RuleSpec (κ : Type) where
  name : String
  vars : List String
  whenPatterns : List PatternSpec
  whereSteps : Option (List (StepSpec κ))
  thenPatterns : List PatternSpec

namespace RuleSpec

variable {κ : Type}

/-- The refinement of the steps in a registry, if there are steps. -/
def buildWhere (registry : Registry (World κ)) :
    Option (List (StepSpec κ)) → Builder (Option (Refinement (World κ)))
  | none => pure none
  | some steps => do
    let steps ← StepSpec.buildAll registry steps
    pure (some (RefinementStep.runAll steps))

def build (spec : RuleSpec κ) (registry : Registry (World κ)) :
    Builder (Clauses (World κ)) := do
  let _ ← Builder.vars spec.vars
  let whenPatterns ← PatternSpec.buildAll registry spec.whenPatterns
  let whereClause ← buildWhere registry spec.whereSteps
  let thenPatterns ← PatternSpec.buildAll registry spec.thenPatterns
  pure { whenPatterns, whereClause, thenPatterns }

def definition (spec : RuleSpec κ) : RuleDefinition (World κ) where
  name := spec.name
  build := spec.build

end RuleSpec

end Script

end ConceptSync
