import ConceptSync.Engine.Basic

set_option autoImplicit false
set_option relaxedAutoImplicit false

/-!
The three kinds of work of a run: matching a completion, evaluating a firing and making an
invocation. Each gives the work it leads to.
-/

namespace ConceptSync

variable {σ π : Type}

/-- Offer a completion to the patterns of a rule, from the slot of the first on. -/
def offerSlots (action : ActionId) (record : Record) :
    Nat → List Pattern → JoinState → List Joined × JoinState
  | _, [], state => ([], state)
  | slot, p :: rest, state =>
    match p.unify? action record.input record.output with
    | none => offerSlots action record (slot + 1) rest state
    | some frame =>
      -- the slots after this one are offered what this one left pending
      let (joined, state) := state.offer slot record.seq frame
      let (later, state) := offerSlots action record (slot + 1) rest state
      (joined ++ later, state)

/-- Offer a completion to every rule in order. A rule that joined is to be evaluated. -/
def offerRules (action : ActionId) (record : Record) :
    List (Rule σ) → List JoinState → List (Work σ) × List JoinState
  | [], _ => ([], [])
  | rule :: rules, states =>
    let patterns := rule.clauses.whenPatterns
    let (joined, state) :=
      offerSlots action record 0 patterns (states.headD (.empty patterns.length))
    let (work, states) := offerRules action record rules states.tail
    let work := if joined.isEmpty then work
      else .evaluate rule (joined.map Joined.frame) record :: work
    (work, state :: states)

/-- Match a completion against the rules, once. -/
def completeRecord (engine : Engine σ) (action : ActionId) (record : Record) (run : Run σ) :
    List (Work σ) × Run σ :=
  if record.id ∈ run.seen then ([], run)
  else
    let (work, joins) := offerRules action record engine.rules run.joins
    (work, { run with seen := record.id :: run.seen, joins })

/-- The message of a panic. -/
def panicMessage : Option String → String
  | some message => "panicked: " ++ message
  | none => "panicked"

/-- The error for a failure of a rule's refinement. An engine error is told as it is, under the
rule's own names. -/
def refinementError (rule : Rule σ) (failure : Failure) : EngineError :=
  match failure.engineError? with
  | some error => rule.describe error
  | none => .callback failure.message

/-- How the refinement of a firing ends: with frames, with an error of this firing alone, or broken
off. -/
inductive Refined where
  | frames (frames : List Frame)
  | error (error : EngineError)
  | broken (b : Break)

def refine (rule : Rule σ) (frames : List Frame) (world : σ) : Refined × σ :=
  match rule.clauses.whereClause with
  | none => (.frames frames, world)
  | some clause =>
    match clause frames world with
    | (.ok frames, world) => (.frames frames, world)
    | (.failed failure, world) => (.error (refinementError rule failure), world)
    -- a panic ends this firing alone, an elapsed deadline the whole run
    | (.broken (.panicked message), world) => (.error (.callback (panicMessage message)), world)
    | (.broken b, world) => (.broken b, world)

/-- Resolve the rule's invocations in every frame. A frame with an unbound variable makes none of
them and is given up. -/
def resolveFrames (rule : Rule σ) (trigger : Record) : List Frame → Run σ → List (Work σ) × Run σ
  | [], run => ([], run)
  | f :: rest, run =>
    match f.resolveAll rule.clauses.thenPatterns with
    | .ok inputs =>
      let (work, run) := resolveFrames rule trigger rest run
      (inputs.map (fun i => .invoke rule i.1 i.2 trigger) ++ work, run)
    | .error e => resolveFrames rule trigger rest (run.abort rule trigger (rule.describe e))

/-- Evaluate a firing: refine its frames and resolve the invocations of the rule in those that are
left. -/
def evaluateFiring (rule : Rule σ) (frames : List Frame) (trigger : Record) (p : Progress σ π) :
    Except Halt (List (Work σ)) × Progress σ π :=
  match refine rule frames p.stage.world with
  | (.broken b, world) => (.error (.broken b), p.withWorld world)
  | (.error e, world) => (.ok [], (p.withWorld world).withRun (p.run.abort rule trigger e))
  -- a firing that keeps no frame is not counted
  | (.frames [], world) => (.ok [], p.withWorld world)
  | (.frames frames, world) =>
    let (work, run) := resolveFrames rule trigger frames { p.run with fired := p.run.fired + 1 }
    (.ok work, (p.withWorld world).withRun run)

/-- Whether a record is of the same action with identical input. -/
def Record.repeats (r : Record) (action : String) (input : Payload) : Bool :=
  r.action == action && r.input.identical input

variable [RecordKeeper π]

/-- Whether a trigger or one of its causes is of the same action with identical input. -/
def repeatsCause (store : π) (action : String) (input : Payload) (trigger : Record) :
    Except Failure Bool :=
  if trigger.repeats action input then .ok true
  else
    match RecordKeeper.ancestors store trigger.seq with
    | .ok causes => .ok (causes.any fun r => r.repeats action input)
    | .error failure => .error failure

/-- Whether an invocation is refused before it is made. -/
def refusal (engine : Engine σ) (action : String) (input : Payload) (trigger : Record)
    (store : π) : Except Failure (Option EngineError) :=
  let depth := trigger.depth + 1
  if engine.config.maxDepth < depth then
    .ok (some (.depthExceeded action depth engine.config.maxDepth))
  else if engine.config.cycleGuard then
    match repeatsCause store action input trigger with
    | .ok true => .ok (some (.cycleDetected action))
    | .ok false => .ok none
    | .error failure => .error failure
  else .ok none

/-- Perform an invocation that is not refused, and keep its completion. -/
def performInvocation (engine : Engine σ) (rule : Rule σ) (action : ActionId) (input : Payload)
    (trigger : Record) (p : Progress σ π) : Except Halt (List (Work σ)) × Progress σ π :=
  let name := engine.registry.nameOf action
  match engine.registry.perform action input p.stage.world with
  | (.broken b, world) => (.error (.broken b), p.withWorld world)
  -- this branch alone is given up; what is queued beside it goes on
  | (.failed failure, world) =>
    (.ok [], (p.withWorld world).withRun
      (p.run.abort rule trigger (.operationFailed name failure.message)))
  | (.ok output, world) =>
    let draft : Draft := ⟨name, input, output, some p.run.id, trigger.depth + 1⟩
    match RecordKeeper.persistChild p.stage.store trigger.seq draft with
    | (.ok record, store) =>
      (.ok [.complete action record], (p.withWorld world).withStore store)
    | (.error failure, store) =>
      (.error (.failed failure), (p.withWorld world).withStore store)

/-- Make one invocation within the limits of the cascade. -/
def dispatch (engine : Engine σ) (rule : Rule σ) (action : ActionId) (input : Payload)
    (trigger : Record) (p : Progress σ π) : Except Halt (List (Work σ)) × Progress σ π :=
  match refusal engine (engine.registry.nameOf action) input trigger p.stage.store with
  | .error failure => (.error (.failed failure), p)
  | .ok (some error) => (.ok [], p.withRun (p.run.abort rule trigger error))
  | .ok none => performInvocation engine rule action input trigger p

def step (engine : Engine σ) (work : Work σ) (p : Progress σ π) :
    Except Halt (List (Work σ)) × Progress σ π :=
  match work with
  | .complete action record =>
    let (next, run) := completeRecord engine action record p.run
    (.ok next, p.withRun run)
  | .evaluate rule frames trigger => evaluateFiring rule frames trigger p
  | .invoke rule action input trigger => dispatch engine rule action input trigger p

end ConceptSync
