import Mathlib.Algebra.Order.Ring.Rat
import ConceptSync.Proofs.Table
import ConceptSync.Value

set_option autoImplicit false
set_option relaxedAutoImplicit false

/-!
Which values there are in documents. Integers have 64 bits, signed or unsigned, floating point
numbers are finite, and the fields of a table stand in the order of their names, each name once.
-/

namespace ConceptSync

namespace Number

/-- An integer of 64 bits, signed or unsigned, or a finite floating point number. -/
def Storable : Number → Prop
  | .int n => -0x8000000000000000 ≤ n ∧ n < 0x10000000000000000
  | .float x => x.isInfinite = false

instance (n : Number) : Decidable n.Storable := by
  cases n <;> unfold Storable <;> infer_instance

def exact : Number → ℚ
  | .int n => n
  | .float x => x.value / Double.unit

end Number

namespace Value

mutual

/-- All numbers can be stored and all tables are in order. -/
def Storable : Value → Prop
  | .number n => n.Storable
  | .array items => ItemsStorable items
  | .object fields => Table.Sorted fields ∧ FieldsStorable fields
  | .null => True
  | .bool _ => True
  | .string _ => True

def ItemsStorable : List Value → Prop
  | [] => True
  | v :: rest => v.Storable ∧ ItemsStorable rest

def FieldsStorable : List (String × Value) → Prop
  | [] => True
  | (_, v) :: rest => v.Storable ∧ FieldsStorable rest

end

mutual

private def decidableStorable : (v : Value) → Decidable v.Storable
  | .number n => inferInstanceAs (Decidable n.Storable)
  | .array items => decidableItemsStorable items
  | .object fields =>
    have := decidableFieldsStorable fields
    inferInstanceAs (Decidable (Table.Sorted fields ∧ FieldsStorable fields))
  | .null => isTrue trivial
  | .bool _ => isTrue trivial
  | .string _ => isTrue trivial

private def decidableItemsStorable : (items : List Value) → Decidable (ItemsStorable items)
  | [] => isTrue trivial
  | v :: rest =>
    have := decidableStorable v
    have := decidableItemsStorable rest
    inferInstanceAs (Decidable (v.Storable ∧ ItemsStorable rest))

private def decidableFieldsStorable :
    (fields : List (String × Value)) → Decidable (FieldsStorable fields)
  | [] => isTrue trivial
  | (_, v) :: rest =>
    have := decidableStorable v
    have := decidableFieldsStorable rest
    inferInstanceAs (Decidable (v.Storable ∧ FieldsStorable rest))

end

instance (v : Value) : Decidable v.Storable := decidableStorable v

instance (fields : List (String × Value)) : Decidable (FieldsStorable fields) :=
  decidableFieldsStorable fields

end Value

end ConceptSync
