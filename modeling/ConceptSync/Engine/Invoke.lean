import ConceptSync.Engine.Drain
import ConceptSync.World

set_option autoImplicit false
set_option relaxedAutoImplicit false

/-!
What callers do with an engine: open a run, invoke actions in it, deliver completions again, settle
it or drop it, or break it off when it takes too long.
-/

namespace ConceptSync

variable {σ π : Type} [RecordKeeper π]

namespace Run

/-- Open a run, to be stopped when the world says so. -/
def start (stage : Stage σ π) (cancel : Option (σ → Bool)) : Progress σ π :=
  let serial := stage.runs + 1
  ⟨.fresh (Uuid.issue .run serial).text cancel, { stage with runs := serial }⟩

/-- Drop a run before it settled. Its records are released. -/
def drop (p : Progress σ π) : Stage σ π :=
  { p.stage with store := RecordKeeper.releaseRun p.stage.store p.run.id }

/-- Invoke an action from outside and do everything it leads to. The action's own crash is the
caller's failure. -/
def invoke (engine : Engine σ) (action : ActionId) (input : Payload) (p : Progress σ π) :
    Except Halt Record × Progress σ π :=
  let name := engine.registry.nameOf action
  if engine.registry.kind? action ≠ some .action then
    (.error (.failed (.engine (.unknownAction name))), p)
  else
    match engine.registry.perform action input p.stage.world with
    | (.broken b, world) => (.error (.broken b), p.withWorld world)
    | (.failed failure, world) =>
      (.error (.failed (.engine (.operationFailed name failure.message))), p.withWorld world)
    | (.ok output, world) =>
      match RecordKeeper.persist p.stage.store ⟨name, input, output, some p.run.id, 0⟩ with
      | (.error failure, store) =>
        (.error (.failed failure), (p.withWorld world).withStore store)
      | (.ok record, store) =>
        match drain engine [.complete action record] ((p.withWorld world).withStore store) with
        | (.ok (), p) => (.ok record, p)
        | (.error halt, p) => (.error halt, p)

/-- Invoke an action by its qualified name. -/
def invokeNamed (engine : Engine σ) (qualified : String) (input : Payload) (p : Progress σ π) :
    Except Halt Record × Progress σ π :=
  match engine.registry.lookup qualified with
  | some action => invoke engine action input p
  | none => (.error (.failed (.engine (.unknownAction qualified))), p)

/-- Match a recorded completion of the run again. One that was matched before is ignored. -/
def deliver (engine : Engine σ) (record : Record) (p : Progress σ π) :
    Except Halt Unit × Progress σ π :=
  if record.run ≠ p.run.id then
    (.error (.failed (.engine (.foreignRecord record.seq record.run p.run.id))), p)
  else
    match engine.registry.lookup record.action with
    | some action => drain engine [.complete action record] p
    | none => (.error (.failed (.engine (.unknownAction record.action))), p)

/-- Settle a run: report its records and forget them. If the store fails the run is dropped. -/
def finish (p : Progress σ π) : Except Failure Report × Stage σ π :=
  match RecordKeeper.readRun p.stage.store p.run.id with
  | .error failure => (.error failure, drop p)
  | .ok records =>
    match RecordKeeper.forgetRun p.stage.store p.run.id with
    | (.error failure, store) => (.error failure, drop (p.withStore store))
    | (.ok (), store) =>
      (.ok ⟨p.run.id, records, p.run.aborted, p.run.fired, p.run.cancelled⟩,
        { p.stage with store })

end Run

namespace Engine

/-- Invoke an action in a run of its own and settle the run, also when the action fails. A run that
is broken off is dropped. -/
def invoke (engine : Engine σ) (action : ActionId) (input : Payload) (stage : Stage σ π) :
    Except Halt Report × Stage σ π :=
  match Run.invoke engine action input (Run.start stage none) with
  | (.ok _, p) =>
    match Run.finish p with
    | (.ok report, stage) => (.ok report, stage)
    | (.error failure, stage) => (.error (.failed failure), stage)
  -- what the run recorded before the failure is forgotten with it
  | (.error (.failed failure), p) => (.error (.failed failure), (Run.finish p).2)
  | (.error (.broken b), p) => (.error (.broken b), Run.drop p)

/-- Invoke an action by its qualified name in a run of its own. -/
def invokeNamed (engine : Engine σ) (qualified : String) (input : Payload) (stage : Stage σ π) :
    Except Halt Report × Stage σ π :=
  match engine.registry.lookup qualified with
  | some action => engine.invoke action input stage
  | none => (.error (.failed (.engine (.unknownAction qualified))), stage)

/-- Invoke an action by its qualified name in a run of its own. A run that takes longer than some
milliseconds is broken off and dropped. -/
def invokeWithin {κ : Type} (engine : Engine (World κ)) (milliseconds : Nat) (qualified : String)
    (input : Payload) (stage : Stage (World κ) π) : Except Halt Report × Stage (World κ) π :=
  let (result, after) :=
    engine.invokeNamed qualified input { stage with world := stage.world.limit milliseconds }
  (result, { after with world := after.world.withDeadline stage.world.clock.deadline })

end Engine

end ConceptSync
