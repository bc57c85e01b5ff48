import ConceptSync.Toml.Datum

set_option autoImplicit false
set_option relaxedAutoImplicit false

/-!
Tables put together from dotted keys and headers. Every key is given one value, every table is
defined once: by a header, by dotted keys below one header, or as a value. A table that only
longer headers imply may still get a header of its own.
-/

namespace ConceptSync

namespace Toml

inductive Origin where
  | header
  | implied
  | dotted
deriving DecidableEq, Repr

/-- A part of a document under construction. -/
inductive Node where
  | value (d : Datum)
  | table (origin : Origin) (entries : List (String × Node))
  /-- The tables of one repeated header. -/
  | tables (elements : List (List (String × Node)))
deriving Inhabited

abbrev Entries := List (String × Node)

/-- An assignment: the tables on the way, the last key, and the value. -/
structure Assignment where
  path : List String
  key : String
  value : Datum

namespace Entries

/-- Replace the entry of a key, or add one at the end. -/
def set (entries : Entries) (key : String) (node : Node) : Entries :=
  if entries.any fun e => e.1 == key then
    entries.map fun e => if e.1 == key then (key, node) else e
  else entries ++ [(key, node)]

/-- Change a node that has entries. The entries of a repeated header are those of its last
table. -/
def inNode? (change : Entries → Option Entries) : Node → Option Node
  | .value _ => none
  | .table origin entries => (change entries).map (Node.table origin)
  | .tables elements => do
    let last ← elements.getLast?
    let last ← change last
    some (.tables (elements.dropLast ++ [last]))

/-- Whether dotted keys may lead through a node, or end in it. -/
def takesDotted (ends : Bool) : Node → Bool
  | .value _ => false
  | .table .header _ => false
  | .table .implied _ => !ends
  | .table .dotted _ => true
  | .tables _ => !ends

/-- Give a key below a dotted path its value. -/
def assign? (key : String) (value : Datum) : List String → Entries → Option Entries
  | [], entries =>
    if entries.any fun e => e.1 == key then none else some (entries ++ [(key, .value value)])
  | step :: path, entries =>
    -- a table that is not there is made by this key, and only dotted keys may add to it
    let node := (entries.lookup step).getD (.table .dotted [])
    if takesDotted path.isEmpty node then do
      let node ← inNode? (assign? key value path) node
      some (set entries step node)
    else none

def assignAll? (entries : Entries) (assignments : List Assignment) : Option Entries :=
  assignments.foldlM (fun es a => assign? a.key a.value a.path es) entries

/-- Change the node at the end of a header's path. The tables on the way are implied. -/
def atPath? (change : Option Node → Option Node) (last : String) :
    List String → Entries → Option Entries
  | [], entries => do
    let node ← change (entries.lookup last)
    some (set entries last node)
  | step :: path, entries => do
    let node := (entries.lookup step).getD (.table .implied [])
    let node ← inNode? (atPath? change last path) node
    some (set entries step node)

end Entries

structure Section where
  path : List String
  last : String
  repeated : Bool
  assignments : List Assignment

/-- The table of a header that is not repeated. -/
def Section.define? (s : Section) (old : Option Node) : Option Node := do
  let start ← match old with
    | none => some []
    -- longer headers came first; what they put there stays
    | some (.table .implied entries) => some entries
    | some _ => none
  let entries ← Entries.assignAll? start s.assignments
  some (.table .header entries)

/-- One more table of a repeated header. -/
def Section.append? (s : Section) (old : Option Node) : Option Node := do
  let elements ← match old with
    | none => some []
    | some (.tables elements) => some elements
    | some _ => none
  let entries ← Entries.assignAll? [] s.assignments
  some (.tables (elements ++ [entries]))

def Section.add? (document : Entries) (s : Section) : Option Entries :=
  Entries.atPath? (if s.repeated then s.append? else s.define?) s.last s.path document

mutual

def Node.datum : Node → Datum
  | .value d => d
  | .table _ entries => .table (entriesData entries)
  | .tables elements => .list (elementsData elements)

def entriesData : List (String × Node) → List (String × Datum)
  | [] => []
  | (key, node) :: rest => (key, node.datum) :: entriesData rest

def elementsData : List (List (String × Node)) → List Datum
  | [] => []
  | entries :: rest => .table (entriesData entries) :: elementsData rest

end

/-- The table of assignments within braces. -/
def inlineTable? (assignments : List Assignment) : Option Datum :=
  (Entries.assignAll? [] assignments).map fun entries => .table (entriesData entries)

/-- The document of the assignments before any header and of the sections after them. -/
def document? (top : List Assignment) (sections : List Section) : Option Datum := do
  let entries ← Entries.assignAll? [] top
  let entries ← sections.foldlM Section.add? entries
  some (.table (entriesData entries))

end Toml

end ConceptSync
