import ConceptSync.Join
import ConceptSync.Record.Store
import ConceptSync.Rule

set_option autoImplicit false
set_option relaxedAutoImplicit false

/-!
Engines and runs. An engine is a registry, rules and limits; it never changes. A run is one request
from outside with everything it cascades into, and all state of matching belongs to it.
-/

namespace ConceptSync

structure EngineConfig where
  /-- The deepest step allowed. Steps from outside have depth zero. -/
  maxDepth : Nat := 16
  /-- Whether an action may not be repeated with the input it had among its own causes. -/
  cycleGuard : Bool := true
deriving DecidableEq, Repr

structure Engine (σ : Type) where
  registry : Registry σ
  rules : List (Rule σ)
  config : EngineConfig

namespace Engine

/-- The engine of a registry and rules that are built in order. The first rule that cannot be
built is the failure. -/
def build {σ : Type} (registry : Registry σ) (rules : List (RuleDefinition σ))
    (config : EngineConfig) : Except Failure (Engine σ) :=
  match Rule.instantiateAll registry rules 1 with
  | .ok rules => .ok { registry, rules, config }
  | .error failure => .error failure

end Engine

/-- A branch of the cascade that was given up. -/
structure AbortedBranch where
  rule : String
  /-- The completion whose processing was given up. -/
  trigger : Int
  error : EngineError
deriving DecidableEq, Repr

/-- One request from outside in progress. -/
structure Run (σ : Type) where
  id : String
  /-- The pending frames of the rules that have any, by position. -/
  joins : List JoinState
  /-- The records matched so far. -/
  seen : List Uuid
  aborted : List AbortedBranch
  fired : Nat
  /-- How to tell from the world that the run is to stop. -/
  cancel : Option (σ → Bool)
  cancelled : Bool

/-- What runs act on: the world of the concepts, the kept records, and how many runs there were. -/
structure Stage (σ π : Type) where
  world : σ
  store : π
  runs : Nat

/-- A run and what it acts on. -/
structure Progress (σ π : Type) where
  run : Run σ
  stage : Stage σ π

/-- Why work stopped before it was done. -/
inductive Halt where
  | failed (failure : Failure)
  | broken (b : Break)

/-- What a settled run produced. -/
structure Report where
  run : String
  /-- Every completion of the run in sequence. -/
  records : List Record
  aborted : List AbortedBranch
  /-- How many firings left a frame to dispatch. -/
  fired : Nat
  cancelled : Bool

namespace Report

/-- The first completion from outside. -/
def root? (r : Report) : Option Record := r.records.find? fun record => record.depth == 0

def count (r : Report) (action : String) : Nat := r.records.countP fun record => record.action == action

end Report

/-- One piece of queued work. -/
inductive Work (σ : Type) where
  /-- Match a completion against every rule. -/
  | complete (action : ActionId) (record : Record)
  /-- Refine joined frames and resolve the rule's invocations. -/
  | evaluate (rule : Rule σ) (frames : List Frame) (trigger : Record)
  | invoke (rule : Rule σ) (action : ActionId) (input : Payload) (trigger : Record)

namespace Run

variable {σ : Type}

def fresh (id : String) (cancel : Option (σ → Bool)) : Run σ :=
  { id, joins := [], seen := [], aborted := [], fired := 0, cancel, cancelled := false }

def abort (run : Run σ) (rule : Rule σ) (trigger : Record) (error : EngineError) : Run σ :=
  { run with aborted := run.aborted ++ [⟨rule.name, trigger.seq, error⟩] }

end Run

namespace Progress

variable {σ π : Type}

def withWorld (p : Progress σ π) (world : σ) : Progress σ π :=
  { p with stage := { p.stage with world } }

def withStore (p : Progress σ π) (store : π) : Progress σ π :=
  { p with stage := { p.stage with store } }

def withRun (p : Progress σ π) (run : Run σ) : Progress σ π := { p with run }

def isCancelled (p : Progress σ π) : Bool :=
  match p.run.cancel with
  | some flag => flag p.stage.world
  | none => false

end Progress

end ConceptSync
