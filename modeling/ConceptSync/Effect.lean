import ConceptSync.Failure

set_option autoImplicit false
set_option relaxedAutoImplicit false

/-!
Computations of concepts and rules. They read and change a world, and end with a result, with a
failure, or by being broken off.
-/

namespace ConceptSync

/-- Why a computation was broken off: it panicked, with a message if it had one, or the time it was
given ran out. -/
inductive Break where
  | panicked (message : Option String)
  | elapsed
deriving DecidableEq, Repr

inductive Outcome (α : Type) where
  | ok (a : α)
  | failed (failure : Failure)
  | broken (b : Break)

/-- A computation in a world. What it did to the world stays done however it ends. -/
def Effect (σ α : Type) : Type := σ → Outcome α × σ

namespace Effect

variable {σ α β : Type}

def bind (e : Effect σ α) (f : α → Effect σ β) : Effect σ β := fun s =>
  match e s with
  | (.ok a, s) => f a s
  | (.failed failure, s) => (.failed failure, s)
  | (.broken b, s) => (.broken b, s)

instance : Monad (Effect σ) where
  pure a := fun s => (.ok a, s)
  bind := bind

def fail (failure : Failure) : Effect σ α := fun s => (.failed failure, s)

def breakOff (b : Break) : Effect σ α := fun s => (.broken b, s)

def read (f : σ → α) : Effect σ α := fun s => (.ok (f s), s)

def modify (f : σ → σ) : Effect σ Unit := fun s => (.ok (), f s)

/-- A step that answers and changes the world. -/
def step (f : σ → α × σ) : Effect σ α := fun s =>
  let (a, s) := f s
  (.ok a, s)

def ofExcept (e : Except Failure α) : Effect σ α :=
  match e with
  | .ok a => pure a
  | .error failure => fail failure

end Effect

end ConceptSync
