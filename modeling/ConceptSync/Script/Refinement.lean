import ConceptSync.Rule
import ConceptSync.World

set_option autoImplicit false
set_option relaxedAutoImplicit false

/-!
Refinements as lists of steps. Each step maps the frames that the one before left.
-/

namespace ConceptSync

namespace Script

inductive FrameTest where
  | present (v : Var)
  | bound (v : Var)
  /-- Bound to the identical value. -/
  | equals (v : Var) (value : Value)
  /-- Bound to a text, or to no text at all. -/
  | text (v : Var) (expected : Option String)
deriving Repr

def FrameTest.holds : FrameTest → Frame → Bool
  | present v, f => f.isPresent v
  | bound v, f => f.contains v
  | equals v value, f =>
    match f.get? v with
    | some actual => actual.identical value
    | none => false
  | text v expected, f => f.text? v == expected

inductive RefinementStep (κ : Type) where
  | keep (test : FrameTest)
  | discard (test : FrameTest)
  | set (v : Var) (value : Value)
  /-- Bind a variable to a field of the object that another stands for, or to null. -/
  | field (target source : Var) (name : String)
  /-- Fail at the first frame where a variable stands for a value. -/
  | failIf (v : Var) (value : Value) (message : String)
  | double
  | reverse
  | query (call : Payload → Effect (World κ) (List Payload)) (input output : Template)
  | sleep (milliseconds : Nat)
  | fail (failure : Failure)
  | panic (message : Option String)

namespace RefinementStep

variable {κ : Type}

def fieldOf (f : Frame) (source : Var) (name : String) : Value :=
  ((f.get? source).bind fun value => value.field? name).getD .null

def run : RefinementStep κ → Refinement (World κ)
  | keep test, frames => pure (frames.filter test.holds)
  | discard test, frames => pure (frames.filter fun f => !test.holds f)
  | set v value, frames => pure (frames.map fun f => f.insert v value)
  | field target source name, frames =>
    pure (frames.map fun f => f.insert target (fieldOf f source name))
  | failIf v value message, frames =>
    if frames.any (FrameTest.equals v value).holds then .fail (.other message) else pure frames
  | double, frames => pure (frames.flatMap fun f => [f, f])
  | reverse, frames => pure frames.reverse
  | query call input output, frames => Frame.bridge call input output frames
  | sleep milliseconds, frames => do
    World.sleep milliseconds
    pure frames
  | fail failure, _ => .fail failure
  | panic message, _ => .breakOff (.panicked message)

def runAll : List (RefinementStep κ) → Refinement (World κ)
  | [], frames => pure frames
  | step :: rest, frames => do
    let frames ← step.run frames
    runAll rest frames

end RefinementStep

end Script

end ConceptSync
