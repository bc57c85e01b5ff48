import ConceptSync.Failure

set_option autoImplicit false
set_option relaxedAutoImplicit false

/-!
Rule variables. A scope gives each name one variable; variables of different scopes are different
because all scopes draw from one supply of tokens.
-/

namespace ConceptSync

/-- The variables of one rule with their names, in order of creation. -/
structure Scope where
  entries : List (String × Var)
deriving DecidableEq, Repr

namespace Scope

def empty : Scope := ⟨[]⟩

def find? (scope : Scope) (name : String) : Option Var :=
  (scope.entries.find? fun e => e.1 == name).map Prod.snd

def name? (scope : Scope) (var : Var) : Option String :=
  (scope.entries.find? fun e => e.2 == var).map Prod.fst

/-- The name of a variable, its token where it has none. -/
def describe (scope : Scope) (var : Var) : String := (scope.name? var).getD var.token

def size (scope : Scope) : Nat := scope.entries.length

def isEmpty (scope : Scope) : Bool := scope.entries.isEmpty

/-- The variable of a name, made from the next free token on first use. Gives the scope and the
next free token after it. -/
def var (scope : Scope) (next : Nat) (name : String) : Var × Scope × Nat :=
  match scope.find? name with
  | some v => (v, scope, next)
  | none => (⟨next⟩, ⟨scope.entries ++ [(name, ⟨next⟩)]⟩, next + 1)

/-- The variables of several names, made in the order given. -/
def vars (scope : Scope) (next : Nat) : List String → List Var × Scope × Nat
  | [] => ([], scope, next)
  | name :: rest =>
    let (v, scope, next) := scope.var next name
    let (vs, scope, next) := scope.vars next rest
    (v :: vs, scope, next)

end Scope

/-- What building a rule changes: the rule's scope and the supply of tokens. -/
structure Naming where
  scope : Scope
  next : Nat
deriving DecidableEq, Repr

abbrev Builder (α : Type) := StateT Naming (Except Failure) α

namespace Builder

/-- The variable of a name in the rule's scope. -/
def var (name : String) : Builder Var := fun s =>
  let (v, scope, next) := s.scope.var s.next name
  .ok (v, ⟨scope, next⟩)

def vars (names : List String) : Builder (List Var) := fun s =>
  let (vs, scope, next) := s.scope.vars s.next names
  .ok (vs, ⟨scope, next⟩)

def fail {α : Type} (failure : Failure) : Builder α := fun _ => .error failure

def ofExcept {α : Type} (e : Except EngineError α) : Builder α := fun s =>
  match e with
  | .ok a => .ok (a, s)
  | .error e => .error (.engine e)

end Builder

end ConceptSync
