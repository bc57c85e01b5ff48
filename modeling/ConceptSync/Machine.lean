import ConceptSync.Registry
import ConceptSync.Text.Characters
import ConceptSync.World

set_option autoImplicit false
set_option relaxedAutoImplicit false

/-!
Concepts given as state machines: actions that answer and change a state of their own, and queries
that only read it.
-/

namespace ConceptSync

namespace Payload

/-- The text of a field that holds more than blanks. -/
def text? (p : Payload) (field : String) : Option String :=
  (p.string? field).filter fun s => !Text.isAllBlank s

def number? (p : Payload) (field : String) : Option Double :=
  (p.get? field).bind Value.asDouble?

end Payload

structure Part (κ S : Type) where
  get : κ → S
  set : κ → S → κ

/-- A concept over a state of its own. An action is given an identifier it may issue. -/
structure Machine (S : Type) where
  name : String
  operations : List Operation
  action? : String → Option (String → Payload → S → Payload × S)
  query? : String → Option (Payload → S → List Payload)

namespace Machine

variable {κ S : Type}

def perform (m : Machine S) (part : Part κ S) (action : String) (input : Payload) :
    Effect (World κ) Payload :=
  match m.action? action with
  | none => .fail (.other (m.name ++ " has no action " ++ action))
  | some act => do
    let id ← World.freshId
    World.onState fun state =>
      let (output, s) := act id input (part.get state)
      (output, part.set state s)

def ask (m : Machine S) (part : Part κ S) (query : String) (input : Payload) :
    Effect (World κ) (List Payload) :=
  match m.query? query with
  | none => .fail (.other (m.name ++ " has no query " ++ query))
  | some answer => .read fun w => answer input (part.get w.state)

def concept (m : Machine S) (part : Part κ S) : Concept (World κ) where
  name := m.name
  operations := m.operations
  perform := m.perform part
  query := m.ask part

end Machine

end ConceptSync
