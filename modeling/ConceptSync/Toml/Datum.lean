set_option autoImplicit false
set_option relaxedAutoImplicit false

/-!
The values of a settings file in the TOML format. Floating point numbers and times are kept by
their text.
-/

namespace ConceptSync

namespace Toml

inductive Datum where
  | text (s : String)
  | integer (n : Int)
  | bool (b : Bool)
  | float (written : String)
  | time (written : String)
  | list (items : List Datum)
  | table (fields : List (String × Datum))
deriving Repr, Inhabited

namespace Datum

def asText? : Datum → Option String
  | text s => some s
  | _ => none

def asBool? : Datum → Option Bool
  | bool b => some b
  | _ => none

def asNatBelow? (limit : Nat) : Datum → Option Nat
  | integer n => if 0 ≤ n ∧ n < limit then some n.toNat else none
  | _ => none

/-- The fields of a record whose names are given: a table that has no other fields, or a list of
the first of them in order. What a list has beyond them is ignored. -/
def record? (names : List String) : Datum → Option (String → Option Datum)
  | table fields =>
    if fields.all fun e => names.contains e.1 then some fun name => fields.lookup name else none
  | list items => some fun name => (names.zip items).lookup name
  | _ => none

end Datum

end Toml

end ConceptSync
