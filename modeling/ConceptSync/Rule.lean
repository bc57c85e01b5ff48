import ConceptSync.Frame
import ConceptSync.Registry
import ConceptSync.Text.Quoted

set_option autoImplicit false
set_option relaxedAutoImplicit false

/-!
Rules: when completions match these patterns, where the joined frames pass a refinement, then make
these invocations.
-/

namespace ConceptSync

/-- Ask a query once for each frame and match every row against the output template. A frame with
no matching row disappears, one with several fans out. The first unbound input variable or failing
call ends the walk. -/
def Frame.bridge {σ : Type} (call : Payload → Effect σ (List Payload)) (input output : Template) :
    List Frame → Effect σ (List Frame)
  | [] => pure []
  | f :: rest =>
    match f.resolve input with
    | .error e => .fail (.engine e)
    | .ok args => do
      let rows ← call args
      let later ← bridge call input output rest
      pure (rows.filterMap (f.match? output) ++ later)

abbrev Refinement (σ : Type) := List Frame → Effect σ (List Frame)

/-- What a rule says. Output templates of `thenPatterns` mean nothing. -/
structure Clauses (σ : Type) where
  whenPatterns : List Pattern
  whereClause : Option (Refinement σ) := none
  thenPatterns : List Pattern

/-- A rule by name, to be built over a fresh scope and a registry. -/
structure RuleDefinition (σ : Type) where
  name : String
  build : Registry σ → Builder (Clauses σ)

/-- A rule that was built and checked. -/
structure Rule (σ : Type) where
  name : String
  scope : Scope
  clauses : Clauses σ

namespace Rule

variable {σ : Type}

def validateAll (registry : Registry σ) (checkOutput : Bool) :
    List Pattern → Except Failure Unit
  | [] => .ok ()
  | p :: rest =>
    match registry.validate p checkOutput with
    | .ok () => validateAll registry checkOutput rest
    | .error e => .error (.engine e)

/-- Build a rule over a fresh scope and check it. Gives the next free token after it. -/
def instantiate (d : RuleDefinition σ) (registry : Registry σ) (next : Nat) :
    Except Failure (Rule σ × Nat) := do
  let (clauses, naming) ← (d.build registry).run ⟨.empty, next⟩
  if clauses.whenPatterns.isEmpty then
    throw (.other ("sync " ++ d.name ++ " has no when patterns"))
  validateAll registry true clauses.whenPatterns
  validateAll registry false clauses.thenPatterns
  return (⟨d.name, naming.scope, clauses⟩, naming.next)

def instantiateAll (registry : Registry σ) :
    List (RuleDefinition σ) → Nat → Except Failure (List (Rule σ))
  | [], _ => .ok []
  | d :: rest, next => do
    let (rule, next) ← instantiate d registry next
    let rules ← instantiateAll registry rest next
    return rule :: rules

/-- Variables that the invocations need and no `when` pattern binds, by token, once each. Without
a `where` clause they can never be bound. -/
def unboundVars (rule : Rule σ) : List Var :=
  let bound := rule.clauses.whenPatterns.flatMap Pattern.vars
  let needed := rule.clauses.thenPatterns.flatMap fun p => p.input.vars
  ((needed.filter fun v => decide (v ∉ bound)).mergeSort fun v w => decide (v.id ≤ w.id)).eraseDups

def summary (rule : Rule σ) : String :=
  let clauses := rule.clauses
  "Synchronization \x7b name: " ++ Text.quoted rule.name ++
    ", when: " ++ toString clauses.whenPatterns.length ++
    ", where: " ++ toString clauses.whereClause.isSome ++
    ", then: " ++ toString clauses.thenPatterns.length ++ " \x7d"

/-- An error with the rule's own name for the variable it speaks of. -/
def describe (rule : Rule σ) : EngineError → EngineError
  | .unboundVariable var _ => .unboundVariable var (rule.scope.describe var)
  | error => error

end Rule

end ConceptSync
