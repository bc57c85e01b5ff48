import ConceptSync.Registry
import ConceptSync.Requesting.Table

set_option autoImplicit false
set_option relaxedAutoImplicit false

/-!
Routes. An included route calls an operation directly; each inclusion says why it may. Every other
call is opened as a request and answered by rules.
-/

namespace ConceptSync

/-- What a path says after the base, if the base ends where a segment begins. Any other path stays
as it is. -/
def RequestingConfig.stripBase (config : RequestingConfig) (path : String) : String :=
  match config.baseUrl.toList.isPrefixOf? path.toList with
  | some ('/' :: rest) => String.ofList ('/' :: rest)
  | _ => path

/-- The route of an operation: its first dot becomes a slash. -/
def routeFor (base qualified : String) : String :=
  match Text.splitAtFirst? '.' qualified.toList with
  | some (before, after) => base ++ "/" ++ String.ofList (before ++ '/' :: after)
  | none => base ++ "/" ++ qualified

/-- The operation of a path with exactly two segments, neither of them empty. -/
def operationFor? (path : String) : Option String :=
  match path.toList with
  | '/' :: rest =>
    match Text.splitAtFirst? '/' rest with
    | some (concept, operation) =>
      -- a third segment shows as a slash within the second
      if concept.isEmpty || operation.isEmpty || operation.contains '/' then none
      else some (qualifiedName (String.ofList concept) (String.ofList operation))
    | none => none
  | _ => none

/-- Which routes call an operation directly, and which must not. -/
structure RouteTable where
  /-- Included routes with the reason they may be exposed. -/
  inclusions : Table String String
  exclusions : List String

namespace RouteTable

/-- The table of inclusions and exclusions in any order. Of two reasons for one route the later
counts. -/
def ofLists (inclusions : List (String × String)) (exclusions : List String) : RouteTable :=
  ⟨.ofList inclusions, (Table.ofList (exclusions.map fun route => (route, ()))).keys⟩

/-- Whether a route is excluded, with or without the base. -/
def isExcluded (t : RouteTable) (base path : String) : Bool :=
  t.exclusions.contains path || t.exclusions.contains (base ++ path)

/-- Why a route is included. An excluded route is not. -/
def justification? (t : RouteTable) (route : String) : Option String :=
  if t.exclusions.contains route then none else t.inclusions.get? route

/-- Routes of registered operations that are neither included nor excluded. -/
def unverified {σ : Type} (t : RouteTable) (base : String) (registry : Registry σ) : List String :=
  (registry.operations.map fun op => routeFor base op.2.1).filter fun route =>
    !t.inclusions.contains route && !t.exclusions.contains route

end RouteTable

end ConceptSync
