import ConceptSync.Record.Timestamp
import ConceptSync.Record.Uuid
import ConceptSync.Value

set_option autoImplicit false
set_option relaxedAutoImplicit false

/-!
Records of completed invocations and their documents.
-/

namespace ConceptSync

/-- A completed invocation. `causedBy` is the root of its causal chain; the depth of an invocation
from outside is zero. -/
structure Record where
  seq : Int
  id : Uuid
  ts : Timestamp
  action : String
  parent : Option Int
  causedBy : Option Int
  run : String
  depth : Nat
  input : Payload
  output : Payload
deriving Repr

/-- A record to be appended. The store gives it its place, identifier and time. -/
structure Draft where
  action : String
  input : Payload
  output : Payload
  run : Option String := none
  depth : Nat := 0
deriving Repr

namespace Record

def isError (r : Record) : Bool := r.output.isError

def seqValue : Option Int → Value
  | some seq => .ofInt seq
  | none => .null

def toValue (r : Record) : Value :=
  .object <| Table.ofList
    [("seq", .ofInt r.seq),
      ("id", .string r.id.text),
      ("ts", .string r.ts.text),
      ("action", .string r.action),
      ("parent_seq", seqValue r.parent),
      ("caused_by_seq", seqValue r.causedBy),
      ("run_id", .string r.run),
      ("depth", .ofNat r.depth),
      ("input", .object r.input),
      ("output", .object r.output)]

/-- An optional sequence number: a missing one is null. -/
def seqOfValue? : Option Value → Option (Option Int)
  | none => some none
  | some .null => some none
  | some v => v.asSigned?.map some

/-- A depth fits in 32 bits. -/
def depthOfValue? (v : Value) : Option Nat :=
  v.asUnsigned?.bind fun n => if n < 0x100000000 then some n else none

/-- The record made of its fields, each found by name. -/
def ofFields? (field? : String → Option Value) : Option Record := do
  let seq ← (← field? "seq").asSigned?
  let id ← (← field? "id").asString?.bind Uuid.parse?
  let ts ← (← field? "ts").asString?.bind Timestamp.parse?
  let action ← (← field? "action").asString?
  let parent ← seqOfValue? (field? "parent_seq")
  let causedBy ← seqOfValue? (field? "caused_by_seq")
  let run ← (← field? "run_id").asString?
  let depth ← depthOfValue? (← field? "depth")
  let input ← (← field? "input").asObject?
  let output ← (← field? "output").asObject?
  some { seq, id, ts, action, parent, causedBy, run, depth, input, output }

def fieldNames : List String :=
  ["seq", "id", "ts", "action", "parent_seq", "caused_by_seq", "run_id", "depth", "input",
    "output"]

/-- The record of a document: an object with its fields, or a list of all of them in order. Other
fields are ignored. -/
def ofValue? : Value → Option Record
  | .object fields => ofFields? (Table.get? fields)
  | .array items =>
    if items.length = fieldNames.length then
      ofFields? fun name => (fieldNames.zip items).lookup name
    else none
  | _ => none

end Record

end ConceptSync
