import ConceptSync.Number.Double
import ConceptSync.Table

set_option autoImplicit false
set_option relaxedAutoImplicit false

/-!
The values that operations exchange. Integers and floating point numbers are kept apart by
`identical` and brought together by `equals`, which compares numbers by their mathematical value.
-/

namespace ConceptSync

/-- A number is a 64 bit integer, signed or unsigned, or a floating point number. -/
inductive Number where
  | int (n : Int)
  | float (x : Double)
deriving DecidableEq, Repr

namespace Number

def identical : Number → Number → Bool
  | .int m, .int n => m == n
  | .float x, .float y => x.eqv y
  | _, _ => false

/-- The largest magnitude a floating point number may have to be compared with an integer. -/
def comparable (x : Double) : Bool :=
  decide (x.magnitude ≤ (Double.ofInt 0xFFFFFFFFFFFFFFFF).magnitude)

def floatIs (x : Double) (n : Int) : Bool := x.isWhole && comparable x && x.truncate == n

/-- Equality of values across both kinds. Integers are never rounded. -/
def equals : Number → Number → Bool
  | .int m, .int n => m == n
  | .int m, .float y => floatIs y m
  | .float x, .int n => floatIs x n
  | .float x, .float y => x.eqv y

def toDouble : Number → Double
  | .int n => .ofInt n
  | .float x => x

end Number

/-- A document: one value, or a list or table of documents. -/
inductive Value where
  | null
  | bool (b : Bool)
  | number (n : Number)
  | string (s : String)
  | array (items : List Value)
  | object (fields : List (String × Value))
deriving Repr, Inhabited

abbrev Payload := Table String Value

namespace Value

mutual

/-- Equality that tells integers from floating point numbers. -/
def identical : Value → Value → Bool
  | .null, .null => true
  | .bool a, .bool b => a == b
  | .number a, .number b => a.identical b
  | .string a, .string b => a == b
  | .array xs, .array ys => identicalItems xs ys
  | .object xs, .object ys => identicalFields xs ys
  | _, _ => false

def identicalItems : List Value → List Value → Bool
  | [], [] => true
  | x :: xs, y :: ys => identical x y && identicalItems xs ys
  | _, _ => false

def identicalFields : List (String × Value) → List (String × Value) → Bool
  | [], [] => true
  | (k, x) :: xs, (l, y) :: ys => k == l && identical x y && identicalFields xs ys
  | _, _ => false

end

mutual

/-- Equality that compares numbers by value. -/
def equals : Value → Value → Bool
  | .null, .null => true
  | .bool a, .bool b => a == b
  | .number a, .number b => a.equals b
  | .string a, .string b => a == b
  | .array xs, .array ys => equalItems xs ys
  | .object xs, .object ys => equalFields xs ys
  | _, _ => false

def equalItems : List Value → List Value → Bool
  | [], [] => true
  | x :: xs, y :: ys => equals x y && equalItems xs ys
  | _, _ => false

def equalFields : List (String × Value) → List (String × Value) → Bool
  | [], [] => true
  | (k, x) :: xs, (l, y) :: ys => k == l && equals x y && equalFields xs ys
  | _, _ => false

end

def ofInt (n : Int) : Value := .number (.int n)

def ofNat (n : Nat) : Value := .number (.int n)

def ofDouble (x : Double) : Value := .number (.float x)

/-- A floating point number as it is written into a document, where only finite ones have a place. -/
def ofFinite (x : Double) : Value := if x.isInfinite then .null else .ofDouble x

def asString? : Value → Option String
  | .string s => some s
  | _ => none

def asObject? : Value → Option Payload
  | .object fields => some fields
  | _ => none

def asArray? : Value → Option (List Value)
  | .array items => some items
  | _ => none

/-- A number as the nearest floating point number. -/
def asDouble? : Value → Option Double
  | .number n => some n.toDouble
  | _ => none

def asBool? : Value → Option Bool
  | .bool b => some b
  | _ => none

/-- An integer of at most 64 bits, signed. -/
def asSigned? : Value → Option Int
  | .number (.int n) => if -0x8000000000000000 ≤ n ∧ n < 0x8000000000000000 then some n else none
  | _ => none

/-- An integer of at most 64 bits, unsigned. -/
def asUnsigned? : Value → Option Nat
  | .number (.int n) => if 0 ≤ n ∧ n < 0x10000000000000000 then some n.toNat else none
  | _ => none

def field? : Value → String → Option Value
  | .object fields, name => Table.get? fields name
  | _, _ => none

def isNull : Value → Bool
  | .null => true
  | _ => false

end Value

namespace Payload

def identical (p q : Payload) : Bool := Value.identicalFields p q

def string? (p : Payload) (field : String) : Option String :=
  (p.get? field).bind Value.asString?

/-- A payload is an error when it has the field `error`. -/
def isError (p : Payload) : Bool := p.contains "error"

def single (field : String) (value : Value) : Payload := [(field, value)]

def error (message : String) : Payload := single "error" (.string message)

end Payload

end ConceptSync
