set_option autoImplicit false
set_option relaxedAutoImplicit false

/-!
What can go wrong. An engine error is a mistake in a rule or a cascade that ran away; a domain
failure is no error but a payload with the field `error`.
-/

namespace ConceptSync

structure Var where
  id : Nat
deriving DecidableEq, Repr

instance : LT Var := ⟨fun a b => a.id < b.id⟩

instance : DecidableLT Var := fun a b => inferInstanceAs (Decidable (a.id < b.id))

def Var.token (v : Var) : String := "?" ++ toString v.id

inductive EngineError where
  | unknownConcept (name : String)
  | duplicateConcept (name : String)
  | unknownAction (name : String)
  | unknownQuery (name : String)
  | unknownField (action field : String)
  | unboundVariable (var : Var) (name : String)
  | depthExceeded (action : String) (depth limit : Nat)
  | cycleDetected (action : String)
  | callback (message : String)
  | operationFailed (action message : String)
  | foreignRecord (seq : Int) (recordRun run : String)
  | invalidPayload (message : String)
deriving DecidableEq, Repr

namespace EngineError

def message : EngineError → String
  | unknownConcept name => "unknown concept: " ++ name
  | duplicateConcept name => "concept already registered: " ++ name
  | unknownAction name => "unknown action: " ++ name
  | unknownQuery name => "unknown query: " ++ name
  | unknownField action field => "field '" ++ field ++ "' is not declared by " ++ action
  | unboundVariable var name => "variable " ++ var.token ++ " (" ++ name ++ ") is unbound"
  | depthExceeded action depth limit =>
    "cascade depth " ++ toString depth ++ " exceeds limit " ++ toString limit ++ " at " ++ action
  | cycleDetected action => "cycle detected: " ++ action ++ " re-invoked with identical input"
  | callback message => "callback failed: " ++ message
  | operationFailed action message => "operation " ++ action ++ " failed: " ++ message
  | foreignRecord seq recordRun run =>
    "record " ++ toString seq ++ " belongs to run " ++ recordRun ++ ", not " ++ run
  | invalidPayload message => "invalid payload: " ++ message

/-- An unbound variable whose name is not known where it is missed. -/
def unbound (var : Var) : EngineError := unboundVariable var var.token

end EngineError

inductive StoreError where
  | parentNotFound (seq : Int)
  | missingRunId (action : String)
deriving DecidableEq, Repr

def StoreError.message : StoreError → String
  | parentNotFound seq => "parent record " ++ toString seq ++ " not found"
  | missingRunId action => "record for " ++ action ++ " has no run id"

/-- The innermost cause of a failure. -/
inductive Cause where
  | engine (error : EngineError)
  | store (error : StoreError)
  | other (message : String)
deriving DecidableEq, Repr

def Cause.message : Cause → String
  | engine error => error.message
  | store error => error.message
  | other message => message

/-- A cause and what was being done when it arose, outermost first. -/
structure Failure where
  contexts : List String
  cause : Cause
deriving DecidableEq, Repr

namespace Failure

def engine (error : EngineError) : Failure := ⟨[], .engine error⟩

def store (error : StoreError) : Failure := ⟨[], .store error⟩

def other (message : String) : Failure := ⟨[], .other message⟩

def inContext (f : Failure) (context : String) : Failure := { f with contexts := context :: f.contexts }

/-- The failure of a chain of messages, outermost first. -/
def ofChain : List String → Failure
  | [] => other ""
  | [root] => other root
  | outer :: rest => (ofChain rest).inContext outer

/-- All messages from the outermost to the cause. -/
def message (f : Failure) : String := ": ".intercalate (f.contexts ++ [f.cause.message])

def headline (f : Failure) : String := f.contexts.headD f.cause.message

/-- The engine error a failure comes from, however deep. -/
def engineError? (f : Failure) : Option EngineError :=
  match f.cause with
  | .engine error => some error
  | _ => none

end Failure

end ConceptSync
