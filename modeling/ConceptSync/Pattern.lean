import ConceptSync.Scope
import ConceptSync.Value

set_option autoImplicit false
set_option relaxedAutoImplicit false

/-!
Patterns: which completions a rule waits for, and which invocations it makes.
-/

namespace ConceptSync

/-- The identity of a registered operation: its position in the registry. -/
structure ActionId where
  index : Nat
deriving DecidableEq, Repr

def ActionId.token (id : ActionId) : String := "#" ++ toString id.index

/-- A field of a template: a variable to bind or a literal to compare. -/
inductive Term where
  | var (v : Var)
  | literal (value : Value)
deriving Repr

def Term.var? : Term → Option Var
  | .var v => some v
  | .literal _ => none

/-- What is asked of the fields of a payload. Fields that are not mentioned are unconstrained. -/
abbrev Template := Table String Term

namespace Template

/-- The variables of a template in field order, with repetitions. -/
def vars (t : Template) : List Var := t.values.filterMap Term.var?

end Template

inductive OutcomeFilter where
  | any
  | success
  | error
deriving DecidableEq, Repr

def OutcomeFilter.admits : OutcomeFilter → Payload → Bool
  | any, _ => true
  | success, output => !output.isError
  | error, output => output.isError

structure Pattern where
  action : ActionId
  input : Template
  output : Template
  outcome : OutcomeFilter
deriving Repr

namespace Pattern

/-- The pattern of every completion of an action. -/
def of (action : ActionId) : Pattern := ⟨action, [], [], .any⟩

def withInput (p : Pattern) (field : String) (term : Term) : Pattern :=
  { p with input := p.input.insert field term }

/-- Constrain a field of the output. Naming `error` restricts the pattern to error outputs. -/
def withOutput (p : Pattern) (field : String) (term : Term) : Pattern :=
  { p with
    output := p.output.insert field term
    outcome := if field = "error" then .error else p.outcome }

def succeeded (p : Pattern) : Pattern := { p with outcome := .success }

def failed (p : Pattern) : Pattern := { p with outcome := .error }

/-- The variables of both templates, input first, with repetitions. -/
def vars (p : Pattern) : List Var := p.input.vars ++ p.output.vars

end Pattern

end ConceptSync
