import ConceptSync.Effect
import ConceptSync.Pattern
import ConceptSync.Text.Quoted

set_option autoImplicit false
set_option relaxedAutoImplicit false

/-!
Concepts and their operations. Rules and callers name an operation through the registry and never
hold a concept themselves.
-/

namespace ConceptSync

inductive OperationKind where
  | action
  | query
deriving DecidableEq, Repr

/-- The declared shape of an operation. Where its fields are declared, patterns may name no
others. -/
structure Operation where
  name : String
  kind : OperationKind
  input : Option (List String) := none
  output : Option (List String) := none
deriving DecidableEq, Repr

namespace Operation

def action (name : String) : Operation := { name, kind := .action }

def query (name : String) : Operation := { name, kind := .query }

def takes (op : Operation) (fields : List String) : Operation := { op with input := some fields }

def gives (op : Operation) (fields : List String) : Operation := { op with output := some fields }

end Operation

/-- Actions and queries over a part of the world. Actions answer domain failures with an `error`
field; queries answer with rows. -/
structure Concept (σ : Type) where
  name : String
  operations : List Operation
  perform : String → Payload → Effect σ Payload
  query : String → Payload → Effect σ (List Payload)

structure Entry (σ : Type) where
  concept : Concept σ
  operation : Operation
  qualified : String

/-- All operations in order of registration. -/
structure Registry (σ : Type) where
  entries : List (Entry σ)
  concepts : List (Concept σ)

structure QueryHandle (σ : Type) where
  concept : Concept σ
  name : String
  qualified : String

def QueryHandle.call {σ : Type} (h : QueryHandle σ) (input : Payload) : Effect σ (List Payload) :=
  h.concept.query h.name input

def QueryHandle.summary {σ : Type} (h : QueryHandle σ) : String :=
  "QueryRef(" ++ Text.quoted h.qualified ++ ")"

def qualifiedName (concept name : String) : String := concept ++ "." ++ name

namespace Text

/-- What stands before and after the first place of a character, if it is there at all. -/
def splitAtFirst? (mark : Char) : List Char → Option (List Char × List Char)
  | [] => none
  | c :: rest =>
    if c = mark then some ([], rest)
    else (splitAtFirst? mark rest).map fun (before, after) => (c :: before, after)

/-- The parts of a dotted name: before and after its first dot. A name without a dot has an empty
second part. -/
def splitQualified (s : String) : String × String :=
  match splitAtFirst? '.' s.toList with
  | some (before, after) => (String.ofList before, String.ofList after)
  | none => (s, "")

end Text

namespace Registry

variable {σ : Type}

def empty : Registry σ := ⟨[], []⟩

def concept? (r : Registry σ) (name : String) : Option (Concept σ) :=
  r.concepts.find? fun c => c.name == name

/-- Register a concept with all its operations. -/
def register (r : Registry σ) (c : Concept σ) : Except EngineError (Registry σ) :=
  if (r.concept? c.name).isSome then .error (.duplicateConcept c.name)
  else .ok
    ⟨r.entries ++ c.operations.map fun op => ⟨c, op, qualifiedName c.name op.name⟩,
      r.concepts ++ [c]⟩

def registerAll (r : Registry σ) : List (Concept σ) → Except EngineError (Registry σ)
  | [] => .ok r
  | c :: rest =>
    match r.register c with
    | .ok r => r.registerAll rest
    | .error e => .error e

def entry? (r : Registry σ) (id : ActionId) : Option (Entry σ) := r.entries[id.index]?

/-- The operation of a qualified name, the one registered last if several share it. -/
def lookup (r : Registry σ) (qualified : String) : Option ActionId :=
  (r.entries.zipIdx.reverse.find? fun e => e.1.qualified == qualified).map fun e => ⟨e.2⟩

def kind? (r : Registry σ) (id : ActionId) : Option OperationKind :=
  (r.entry? id).map fun e => e.operation.kind

/-- The qualified name of an operation. -/
def nameOf (r : Registry σ) (id : ActionId) : String :=
  match r.entry? id with
  | some e => e.qualified
  | none => "<unregistered>"

/-- The operation of a qualified name if it is of a kind. -/
def lookupKind (r : Registry σ) (kind : OperationKind) (qualified : String) : Option ActionId :=
  (r.lookup qualified).bind fun id => if r.kind? id = some kind then some id else none

def action (r : Registry σ) (concept name : String) : Except EngineError ActionId :=
  match r.concept? concept with
  | none => .error (.unknownConcept concept)
  | some _ =>
    match r.lookupKind .action (qualifiedName concept name) with
    | some id => .ok id
    | none => .error (.unknownAction (qualifiedName concept name))

def query (r : Registry σ) (concept name : String) : Except EngineError (QueryHandle σ) :=
  match r.concept? concept with
  | none => .error (.unknownConcept concept)
  | some c =>
    match r.lookupKind .query (qualifiedName concept name) with
    | some _ => .ok ⟨c, name, qualifiedName concept name⟩
    | none => .error (.unknownQuery (qualifiedName concept name))

/-- Every operation with its identity, in order of registration. -/
def operations (r : Registry σ) : List (ActionId × String × OperationKind) :=
  r.entries.zipIdx.map fun e => (⟨e.2⟩, e.1.qualified, e.1.operation.kind)

/-- The first field that is not among the declared ones. -/
def undeclared? (declared : Option (List String)) (fields : List String) : Option String :=
  match declared with
  | none => none
  | some names => fields.find? fun f => decide (f ∉ names)

/-- Check that a pattern names an action and only declared fields, those of the output on
demand. -/
def validate (r : Registry σ) (p : Pattern) (checkOutput : Bool) : Except EngineError Unit :=
  match r.entry? p.action with
  | none => .error (.unknownAction p.action.token)
  | some e =>
    if e.operation.kind ≠ .action then .error (.unknownAction e.qualified)
    else
      match undeclared? e.operation.input p.input.keys with
      | some field => .error (.unknownField e.qualified field)
      | none =>
        -- any action may answer with an error, declared or not
        let outputs := if checkOutput then p.output.keys.filter (· ≠ "error") else []
        match undeclared? e.operation.output outputs with
        | some field => .error (.unknownField e.qualified field)
        | none => .ok ()

/-- Perform an operation by its concept. -/
def perform (r : Registry σ) (id : ActionId) (input : Payload) : Effect σ Payload :=
  match r.entry? id with
  | none => .fail (.engine (.unknownAction id.token))
  | some e => e.concept.perform e.operation.name input

end Registry

end ConceptSync
