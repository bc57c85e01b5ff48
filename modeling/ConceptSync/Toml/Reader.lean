import ConceptSync.Toml.Assembly
import ConceptSync.Toml.Scalar

set_option autoImplicit false
set_option relaxedAutoImplicit false

/-!
Settings files read from text. Nothing is read from a text that is not wholly a TOML document.
-/

namespace ConceptSync

namespace Toml

def skipComment : List Char → List Char
  | '#' :: rest => rest.dropWhile isPlain
  | cs => cs

/-- Nothing but a comment up to the end of the line or of the text. -/
def endLine? (cs : List Char) : Option (List Char) :=
  match skipComment (skipBlanks cs) with
  | [] => some []
  | cs => readNewline? cs

def skipTrivia : Nat → List Char → List Char
  | 0, cs => cs
  | fuel + 1, cs =>
    let cs := skipComment (skipBlanks cs)
    match readNewline? cs with
    | some rest => skipTrivia fuel rest
    | none => cs

def isKeyChar (c : Char) : Bool := c.isAlphanum || c = '_' || c = '-'

/-- One key: bare, or quoted on one line. -/
def readSimpleKey? : List Char → Option (String × List Char)
  | '"' :: rest => readLineText? '"' rest
  | '\'' :: rest => readLineText? '\'' rest
  | cs =>
    let key := cs.takeWhile isKeyChar
    if key.isEmpty then none else some (String.ofList key, cs.drop key.length)

/-- The keys of a dotted key, each with blanks around it. -/
def readKeys? : Nat → List Char → Option (List String × List Char)
  | 0, _ => none
  | fuel + 1, cs => do
    let (key, rest) ← readSimpleKey? (skipBlanks cs)
    match skipBlanks rest with
    | '.' :: rest =>
      let (keys, rest) ← readKeys? fuel rest
      some (key :: keys, rest)
    | rest => some ([key], rest)

/-- How many brackets may be open at once, and how many keys a dotted key may have. -/
def maxDepth : Nat := 79

/-- A dotted key as its path and its last key. -/
def readPath? (cs : List Char) : Option ((List String × String) × List Char) := do
  let (keys, rest) ← readKeys? (cs.length + 1) cs
  if maxDepth < keys.length then none
  else
    let last ← keys.getLast?
    some ((keys.dropLast, last), rest)

mutual

/-- A value, within a number of brackets that may still be opened. -/
def readDatum? : Nat → Nat → List Char → Option (Datum × List Char)
  | 0, _, _ => none
  | fuel + 1, depth, cs =>
    match cs with
    | '"' :: rest => (readText? '"' rest).map fun (s, rest) => (.text s, rest)
    | '\'' :: rest => (readText? '\'' rest).map fun (s, rest) => (.text s, rest)
    | '[' :: rest =>
      if depth = 0 then none
      else (readItems? fuel (depth - 1) [] rest).map fun (items, rest) => (.list items, rest)
    | '\x7b' :: rest =>
      if depth = 0 then none
      else match skipBlanks rest with
        | '\x7d' :: rest => some (.table [], rest)
        | rest => do
          let (assignments, rest) ← readFields? fuel (depth - 1) [] rest
          let table ← inlineTable? assignments
          some (table, rest)
    | cs =>
      let (written, rest) := splitScalar cs
      (scalar? written).map fun d => (d, rest)

def readItems? : Nat → Nat → List Datum → List Char → Option (List Datum × List Char)
  | 0, _, _, _ => none
  | fuel + 1, depth, done, cs =>
    match skipTrivia (cs.length + 1) cs with
    | ']' :: rest => some (done.reverse, rest)
    | cs => do
      let (item, rest) ← readDatum? fuel depth cs
      match skipTrivia (rest.length + 1) rest with
      | ',' :: rest => readItems? fuel depth (item :: done) rest
      | ']' :: rest => some ((item :: done).reverse, rest)
      | _ => none

/-- The assignments within braces up to the closing one. -/
def readFields? :
    Nat → Nat → List Assignment → List Char → Option (List Assignment × List Char)
  | 0, _, _, _ => none
  | fuel + 1, depth, done, cs => do
    let ((path, key), rest) ← readPath? cs
    match skipBlanks rest with
    | '=' :: rest =>
      let (value, rest) ← readDatum? fuel depth (skipBlanks rest)
      match skipBlanks rest with
      | ',' :: rest => readFields? fuel depth (⟨path, key, value⟩ :: done) rest
      | '\x7d' :: rest => some ((⟨path, key, value⟩ :: done).reverse, rest)
      | _ => none
    | _ => none

end

def readAssignment? (cs : List Char) : Option (Assignment × List Char) := do
  let ((path, key), rest) ← readPath? cs
  match skipBlanks rest with
  | '=' :: rest =>
    let (value, rest) ← readDatum? (2 * rest.length + 2) maxDepth (skipBlanks rest)
    let rest ← endLine? rest
    some (⟨path, key, value⟩, rest)
  | _ => none

/-- A header after its opening bracket. -/
def readHeader? (cs : List Char) : Option (Section × List Char) :=
  match cs with
  | '[' :: rest => do
    let ((path, last), rest) ← readPath? rest
    match rest with
    | ']' :: ']' :: rest =>
      let rest ← endLine? rest
      some (⟨path, last, true, []⟩, rest)
    | _ => none
  | rest => do
    let ((path, last), rest) ← readPath? rest
    match rest with
    | ']' :: rest =>
      let rest ← endLine? rest
      some (⟨path, last, false, []⟩, rest)
    | _ => none

/-- The assignments up to the next header, and the characters from there on. -/
def readAssignments? : Nat → List Assignment → List Char → Option (List Assignment × List Char)
  | 0, _, _ => none
  | fuel + 1, done, cs =>
    match skipTrivia (cs.length + 1) cs with
    | [] => some (done.reverse, [])
    | '[' :: rest => some (done.reverse, '[' :: rest)
    | cs => do
      let (assignment, rest) ← readAssignment? cs
      readAssignments? fuel (assignment :: done) rest

/-- The sections up to the end of the text. -/
def readSections? : Nat → List Section → List Char → Option (List Section)
  | 0, _, _ => none
  | fuel + 1, done, cs =>
    match cs with
    | [] => some done.reverse
    -- assignments end before an opening bracket only, so the character is one
    | _ :: rest => do
      let (header, rest) ← readHeader? rest
      let (assignments, rest) ← readAssignments? (rest.length + 1) [] rest
      readSections? fuel ({ header with assignments } :: done) rest

/-- The document that a text holds. A byte order mark at its start is no part of it. -/
def read? (text : String) : Option Datum := do
  let cs := match text.toList with
    | '\ufeff' :: rest => rest
    | cs => cs
  let (top, rest) ← readAssignments? (cs.length + 1) [] cs
  let sections ← readSections? (rest.length + 1) [] rest
  document? top sections

end Toml

end ConceptSync
