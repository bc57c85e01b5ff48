import ConceptSync.Proofs.Json.Rereading

set_option autoImplicit false
set_option relaxedAutoImplicit false

/-!
What can be read. Every document that is read from a text can be stored: its integers have at most
64 bits, its floating point numbers are finite, its tables are in order, and its brackets are nested
no deeper than a reader allows.
-/

namespace ConceptSync

namespace Value

def Fits (depth : Nat) (v : Value) : Prop := v.Storable ∧ v.nesting ≤ depth

variable {depth : Nat}

theorem fits_array_iff {items : List Value} :
    (Value.array items).Fits (depth + 1) ↔ ∀ v ∈ items, v.Fits depth := by
  have hitems : ItemsStorable items ∧ itemsNesting items ≤ depth ↔ ∀ v ∈ items, v.Fits depth := by
    induction items with
    | nil => simp [ItemsStorable, itemsNesting]
    | cons v items ih =>
      rw [List.forall_mem_cons, ← ih]
      simp only [ItemsStorable, itemsNesting, Nat.max_le, Fits]
      tauto
  rw [← hitems]
  simp [Fits, Storable, nesting]

theorem fits_object_iff {fields : Payload} :
    (Value.object fields).Fits (depth + 1) ↔
      Table.Sorted fields ∧ ∀ e ∈ fields, e.2.Fits depth := by
  have hfields : FieldsStorable fields ∧ fieldsNesting fields ≤ depth ↔
      ∀ e ∈ fields, e.2.Fits depth := by
    induction fields with
    | nil => simp [FieldsStorable, fieldsNesting]
    | cons e fields ih =>
      rw [List.forall_mem_cons, ← ih]
      simp only [FieldsStorable, fieldsNesting, Nat.max_le, Fits]
      tauto
  rw [← hfields]
  simp [Fits, Storable, nesting, and_assoc]

end Value

namespace Json

open Value

variable {assemble : Assembly} {depth : Nat} {v : Value} {rest : List Char}

private theorem fits_readUnsigned (hsound : assemble.Sound) {negative : Bool} {cs : List Char}
    (h : readUnsigned assemble negative cs = some (v, rest)) : v.Fits depth := by
  unfold readUnsigned at h
  dsimp only at h
  split at h
  · cases h
  · simp only [Option.bind_eq_bind, Option.bind_eq_some_iff, Prod.exists] at h
    obtain ⟨fraction, _, -, exponent, _, -, n, hn, heq⟩ := h
    rw [Option.some.injEq, Prod.mk.injEq] at heq
    rw [← heq.1]
    exact ⟨hsound.storable _ _ _ _ _ hn, Nat.zero_le _⟩

mutual

private theorem fits_readValue (hsound : assemble.Sound) {fuel depth : Nat} {cs rest : List Char}
    {v : Value} (h : readValue assemble fuel depth cs = some (v, rest)) : v.Fits depth := by
  cases fuel with
  | zero => cases h
  | succ fuel =>
    unfold readValue at h
    split at h
    · cases h
      exact ⟨trivial, Nat.zero_le _⟩
    · cases h
      exact ⟨trivial, Nat.zero_le _⟩
    · cases h
      exact ⟨trivial, Nat.zero_le _⟩
    · obtain ⟨s, -, heq⟩ := Option.map_eq_some_iff.mp h
      cases heq
      exact ⟨trivial, Nat.zero_le _⟩
    · exact fits_readUnsigned hsound h
    · cases depth with
      | zero => cases h
      | succ depth =>
        rw [if_neg (Nat.succ_ne_zero depth)] at h
        split at h
        · cases h
          exact fits_array_iff.mpr (by simp)
        · obtain ⟨items, hitems, heq⟩ := Option.map_eq_some_iff.mp h
          cases heq
          exact fits_array_iff.mpr (fits_readItems hsound (by simp) hitems)
    · cases depth with
      | zero => cases h
      | succ depth =>
        rw [if_neg (Nat.succ_ne_zero depth)] at h
        split at h
        · cases h
          exact fits_object_iff.mpr ⟨.nil, by simp⟩
        · obtain ⟨fields, hfields, heq⟩ := Option.map_eq_some_iff.mp h
          cases heq
          exact fits_object_iff.mpr (fits_readFields hsound .nil (by simp) hfields)
    · exact fits_readUnsigned hsound h

private theorem fits_readItems (hsound : assemble.Sound) {fuel depth : Nat}
    {done items : List Value} {cs rest : List Char} (hdone : ∀ v ∈ done, v.Fits depth)
    (h : readItems assemble fuel depth done cs = some (items, rest)) :
    ∀ v ∈ items, v.Fits depth := by
  cases fuel with
  | zero => cases h
  | succ fuel =>
    simp only [readItems, Option.bind_eq_bind, Option.bind_eq_some_iff, Prod.exists] at h
    obtain ⟨v, after, hv, h⟩ := h
    have hnext : ∀ w ∈ v :: done, w.Fits depth :=
      List.forall_mem_cons.mpr ⟨fits_readValue hsound hv, hdone⟩
    split at h
    · exact fits_readItems hsound hnext h
    · cases h
      exact fun w hw => hnext w (List.mem_reverse.mp hw)
    · cases h

private theorem fits_readFields (hsound : assemble.Sound) {fuel depth : Nat} {done fields : Payload}
    {cs rest : List Char} (hsorted : Table.Sorted done) (hdone : ∀ e ∈ done, e.2.Fits depth)
    (h : readFields assemble fuel depth done cs = some (fields, rest)) :
    Table.Sorted fields ∧ ∀ e ∈ fields, e.2.Fits depth := by
  cases fuel with
  | zero => cases h
  | succ fuel =>
    unfold readFields at h
    split at h
    · simp only [Option.bind_eq_bind, Option.bind_eq_some_iff, Prod.exists] at h
      obtain ⟨key, _, -, h⟩ := h
      split at h
      · simp only [Option.bind_eq_some_iff, Prod.exists] at h
        obtain ⟨v, after, hv, h⟩ := h
        have hnext : ∀ e ∈ done.insert key v, e.2.Fits depth := by
          intro e he
          rcases Table.mem_insert he with rfl | hmem
          · exact fits_readValue hsound hv
          · exact hdone e hmem
        split at h
        · exact fits_readFields hsound (hsorted.insert key v) hnext h
        · cases h
          exact ⟨hsorted.insert key v, hnext⟩
        · cases h
      · cases h
    · cases h

end

theorem fits_of_readWith? (hsound : assemble.Sound) {text : String}
    (h : readWith? assemble text = some v) : v.Fits maxDepth := by
  unfold readWith? at h
  dsimp only at h
  split at h
  · next w after hread =>
    split at h
    · cases h
      exact fits_readValue hsound hread
    · cases h
  · cases h

end Json

end ConceptSync
