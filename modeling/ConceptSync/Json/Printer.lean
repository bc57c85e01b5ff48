import ConceptSync.Failure
import ConceptSync.Number.Decimal
import ConceptSync.Value

set_option autoImplicit false
set_option relaxedAutoImplicit false

/-!
Documents as text: on one line without blanks, or one entry a line indented by two blanks a level.
A document that is no payload is told as text.
-/

namespace ConceptSync

namespace Json

def hexDigit (n : Nat) : Char := (Nat.toDigits 16 (n % 16)).headD '0'

/-- A character inside quotes. Quotes, backslashes and control characters are escaped. -/
def escapeChar (c : Char) : List Char :=
  if c = '"' then ['\\', '"']
  else if c = '\\' then ['\\', '\\']
  else if c = '\x08' then ['\\', 'b']
  else if c = '\x0c' then ['\\', 'f']
  else if c = '\n' then ['\\', 'n']
  else if c = '\r' then ['\\', 'r']
  else if c = '\t' then ['\\', 't']
  else if c.toNat < 32 then
    ['\\', 'u', '0', '0', hexDigit (c.toNat / 16), hexDigit c.toNat]
  else [c]

def quote (s : String) : String :=
  String.ofList ('"' :: (s.toList.flatMap escapeChar ++ ['"']))

def printNumber : Number → String
  | .int n => toString n
  | .float x => Decimal.document.write x

mutual

def print : Value → String
  | .null => "null"
  | .bool true => "true"
  | .bool false => "false"
  | .number n => printNumber n
  | .string s => quote s
  | .array items => "[" ++ ",".intercalate (printItems items) ++ "]"
  | .object fields => "\x7b" ++ ",".intercalate (printFields fields) ++ "\x7d"

def printItems : List Value → List String
  | [] => []
  | v :: rest => print v :: printItems rest

def printFields : List (String × Value) → List String
  | [] => []
  | (k, v) :: rest => (quote k ++ ":" ++ print v) :: printFields rest

end

/-- Entries between brackets, each on a line of its own one level deeper. -/
def block (opening closing : String) (level : Nat) (entries : List String) : String :=
  match entries with
  | [] => opening ++ closing
  | _ =>
    let indent (n : Nat) := String.ofList (List.replicate (2 * n) ' ')
    let separator := ",\n" ++ indent (level + 1)
    opening ++ "\n" ++ indent (level + 1) ++ separator.intercalate entries ++
      "\n" ++ indent level ++ closing

mutual

/-- A document with one entry a line, at a level of indentation. -/
def printIndented (level : Nat) : Value → String
  | .array items => block "[" "]" level (indentedItems (level + 1) items)
  | .object fields => block "\x7b" "\x7d" level (indentedFields (level + 1) fields)
  | .null => "null"
  | .bool true => "true"
  | .bool false => "false"
  | .number n => printNumber n
  | .string s => quote s

def indentedItems (level : Nat) : List Value → List String
  | [] => []
  | v :: rest => printIndented level v :: indentedItems level rest

def indentedFields (level : Nat) : List (String × Value) → List String
  | [] => []
  | (k, v) :: rest => (quote k ++ ": " ++ printIndented level v) :: indentedFields level rest

end

/-- A document with one entry a line. -/
def pretty (v : Value) : String := printIndented 0 v

end Json

namespace Payload

/-- The payload of an object. No other document is one. -/
def ofValue : Value → Except EngineError Payload
  | .object fields => .ok fields
  | other => .error (.invalidPayload ("expected an object, got " ++ Json.print other))

/-- What an error payload says: a text as it is, anything else as a document. -/
def errorMessage? (p : Payload) : Option String :=
  (p.get? "error").map fun e => match e with
    | .string s => s
    | other => Json.print other

end Payload

end ConceptSync
