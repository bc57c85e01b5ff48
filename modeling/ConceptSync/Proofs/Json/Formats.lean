import ConceptSync.Proofs.Json.Floats
import ConceptSync.Proofs.Json.Reading

set_option autoImplicit false
set_option relaxedAutoImplicit false

/-!
Formats of documents. A lawful format reads back what it writes, as long as its brackets are not
nested too deep, and nothing that cannot be stored. A reader makes its numerals lawful if it is sound
and gives every floating point number back, as one that rounds once does.
-/

namespace ConceptSync

namespace Json

open Value

/-- How documents are written and read, and how many brackets may be open at once. -/
structure Format where
  print : Value → String
  read? : String → Option Value
  depth : Nat

/-- What is relied on of a format. -/
structure Format.Lawful (f : Format) : Prop where
  reads : ∀ v : Value, v.Storable → v.nesting ≤ f.depth → f.read? (f.print v) = some v
  refuses : ∀ v : Value, f.depth < v.nesting → f.read? (f.print v) = none
  orderless : ∀ fields fields' : List (String × Value), (fields.map Prod.fst).Nodup →
    fields.Perm fields' → f.read? (f.print (.object fields)) = f.read? (f.print (.object fields'))
  fits : ∀ text v, f.read? text = some v → v.Fits f.depth

def Format.of (assemble : Assembly) : Format where
  print := Json.print
  read? := readWith? assemble
  depth := maxDepth

mutual

private theorem isInfinite_of_mem_floats {v : Value} (h : v.Storable) :
    ∀ x ∈ v.floats, x.isInfinite = false := by
  cases v with
  | null | bool | string => simp [floats]
  | number n =>
    cases n with
    | int n => simp [floats]
    | float x =>
      rw [floats, List.forall_mem_singleton]
      exact h
  | array items => exact isInfinite_of_mem_itemsFloats h
  | object fields => exact isInfinite_of_mem_fieldsFloats h.2

private theorem isInfinite_of_mem_itemsFloats {items : List Value} (h : ItemsStorable items) :
    ∀ x ∈ itemsFloats items, x.isInfinite = false := by
  cases items with
  | nil => simp [itemsFloats]
  | cons v items =>
    rw [itemsFloats, List.forall_mem_append]
    exact ⟨isInfinite_of_mem_floats h.1, isInfinite_of_mem_itemsFloats h.2⟩

private theorem isInfinite_of_mem_fieldsFloats {fields : List (String × Value)}
    (h : FieldsStorable fields) :
    ∀ x ∈ fieldsFloats fields, x.isInfinite = false := by
  cases fields with
  | nil => simp [fieldsFloats]
  | cons e fields =>
    rw [fieldsFloats, List.forall_mem_append]
    exact ⟨isInfinite_of_mem_floats h.1, isInfinite_of_mem_fieldsFloats h.2⟩

end

variable {assemble : Assembly}

theorem Assembly.Sound.reads (hsound : assemble.Sound) {v : Value} (h : v.Storable)
    (hnesting : v.nesting ≤ maxDepth) (hfloats : ∀ x ∈ v.floats, x.ReadsBack assemble) :
    readWith? assemble (print v) = some v := by
  rw [readWith?_print]
  exact (reread?_eq_some_iff hsound maxDepth h).mpr ⟨hnesting, hfloats⟩

theorem refuses_of_lt_nesting {v : Value} (h : maxDepth < v.nesting) :
    readWith? assemble (print v) = none := by
  rw [readWith?_print, Option.eq_none_iff_forall_ne_some]
  intro w hw
  exact absurd (nesting_le_of_reread? hw) (Nat.not_le.mpr h)

private theorem Assembly.Sound.lawful (hsound : assemble.Sound)
    (hfloats : ∀ x : Double, x.isInfinite = false → x.ReadsBack assemble) :
    (Format.of assemble).Lawful where
  reads v h hnesting :=
    hsound.reads h hnesting fun x hx => hfloats x (isInfinite_of_mem_floats h x hx)
  refuses _ h := refuses_of_lt_nesting h
  orderless fields fields' hnodup hperm := by
    have hsame : (Value.object fields).reread? assemble maxDepth =
        (Value.object fields').reread? assemble maxDepth := reread?_object_perm hnodup hperm
    rwa [← readWith?_print, ← readWith?_print] at hsame
  fits _ _ h := fits_of_readWith? hsound h

theorem lawful_nearest : (Format.of assembleNearest).Lawful :=
  sound_assembleNearest.lawful fun _ => Double.readsBack_nearest

end Json

end ConceptSync
