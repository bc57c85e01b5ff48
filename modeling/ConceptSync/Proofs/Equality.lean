import Mathlib.Data.List.Perm.Subperm
import Mathlib.Data.Option.Basic
import Mathlib.Tactic.FieldSimp
import Mathlib.Tactic.NormNum
import ConceptSync.Proofs.Document
import ConceptSync.Proofs.Value

set_option autoImplicit false
set_option relaxedAutoImplicit false

/-!
What equality of values is. Two numbers are equal when they are the same rational number, of
whatever kind they are: an integer of 64 bits is compared with the exact value of a floating point
number, so none of them is ever rounded. Lists are equal item by item and tables field by field,
found by name.
-/

namespace ConceptSync

namespace Number

variable {x : Double} {n : Int} {a b : Number}

private theorem comparable_iff : comparable x = true ↔ x.magnitude ≤ 2 ^ 64 * Double.unit := by
  have hbound : (Double.ofInt 0xFFFFFFFFFFFFFFFF).magnitude = 2 ^ 64 * Double.unit := by
    decide +kernel
  rw [comparable, decide_eq_true_iff, hbound]

private theorem floatIs_iff (hn : (Number.int n).Storable) :
    floatIs x n = true ↔ x.value = Double.unit * n := by
  refine ⟨value_of_floatIs, fun h => ?_⟩
  have hpos : 0 < Double.unit := by decide +kernel
  have hmagnitude : x.magnitude = Double.unit * n.natAbs := by
    rw [Double.magnitude_eq_natAbs, h, Int.natAbs_mul, Int.natAbs_natCast]
  have hwhole : x.isWhole = true := by simp [Double.isWhole, hmagnitude]
  have hcomparable : comparable x = true := by
    rw [comparable_iff, hmagnitude, Nat.mul_comm]
    have hsize : n.natAbs ≤ 2 ^ 64 := by
      simp only [Storable] at hn
      omega
    exact Nat.mul_le_mul_right _ hsize
  have htruncate : x.truncate = n := by
    rw [Double.truncate_eq_tdiv, h]
    exact Int.mul_tdiv_cancel_left _ (by omega)
  simp [floatIs, hwhole, hcomparable, htruncate]

private theorem equals_iff_exact (ha : a.Storable) (hb : b.Storable) :
    a.equals b = true ↔ a.exact = b.exact := by
  have hunit : (Double.unit : ℚ) ≠ 0 := by
    have hpos : Double.unit ≠ 0 := by decide +kernel
    exact_mod_cast hpos
  have hmixed (x : Double) (n : Int) : x.value = Double.unit * n ↔ (x.value : ℚ) / Double.unit = n := by
    rw [div_eq_iff hunit, mul_comm (n : ℚ)]
    exact_mod_cast Iff.rfl
  cases a with
  | int m =>
    cases b with
    | int n => simp [equals, exact]
    | float y => rw [equals, floatIs_iff ha, hmixed, exact, exact, eq_comm]
  | float x =>
    cases b with
    | int n => rw [equals, floatIs_iff hb, hmixed, exact, exact]
    | float y => simp [equals, Double.eqv_iff, exact, div_left_inj' hunit]

end Number

namespace Value

variable {xs ys : List (String × Value)}

private theorem equalItems_iff {xs ys : List Value} :
    equalItems xs ys = true ↔ List.Forall₂ (fun x y => x.equals y = true) xs ys := by
  induction xs generalizing ys with
  | nil => cases ys <;> simp [equalItems]
  | cons x xs ih => cases ys <;> simp [equalItems, ih]

private theorem equalFields_iff : equalFields xs ys = true ↔
    List.Forall₂ (fun d e => d.1 = e.1 ∧ d.2.equals e.2 = true) xs ys := by
  induction xs generalizing ys with
  | nil => cases ys <;> simp [equalFields]
  | cons d xs ih =>
    cases ys with
    | nil => simp [equalFields]
    | cons e ys => simp [equalFields, ih]

/-- Under every name both tables have equal values or none at all. -/
def SameFields (xs ys : List (String × Value)) : Prop :=
  ∀ name, Option.Rel (fun v w => v.equals w = true) (Table.get? xs name) (Table.get? ys name)

private theorem isSome_iff_of_rel {v w : Option Value}
    (h : Option.Rel (fun v w => v.equals w = true) v w) : v.isSome = true ↔ w.isSome = true := by
  cases h <;> simp

private theorem sameFields_of_equalFields (h : equalFields xs ys = true) : SameFields xs ys := by
  intro name
  rw [equalFields_iff] at h
  induction h with
  | nil => exact .none
  | @cons d e xs ys hfield _ ih =>
    obtain ⟨hname, hvalue⟩ := hfield
    simp only [Table.get?, hname]
    split
    · exact .some hvalue
    · exact ih

private theorem get?_tail {k : String} {v : Value} (h : Table.Sorted ((k, v) :: xs)) :
    Table.get? xs k = none := by
  rw [← Option.not_isSome_iff_eq_none, Table.isSome_get?]
  exact (List.nodup_cons.mp h.nodup_keys).1

private theorem SameFields.equalFields (h : SameFields xs ys) (hxs : Table.Sorted xs)
    (hys : Table.Sorted ys) : equalFields xs ys = true := by
  induction xs generalizing ys with
  | nil =>
    cases ys with
    | nil => rfl
    | cons e ys =>
      have hnone := isSome_iff_of_rel (h e.1)
      simp [Table.get?] at hnone
  | cons d xs ih =>
    obtain ⟨k, v⟩ := d
    cases ys with
    | nil =>
      have hnone := isSome_iff_of_rel (h k)
      simp [Table.get?] at hnone
    | cons e ys =>
      obtain ⟨l, w⟩ := e
      have hkl : k = l := by
        refine le_antisymm (not_lt.mp fun hlt => ?_) (not_lt.mp fun hlt => ?_)
        · have hsome := (isSome_iff_of_rel (h l)).mpr (by simp [Table.get?])
          rw [hxs.get?_of_lt_head hlt] at hsome
          cases hsome
        · have hsome := (isSome_iff_of_rel (h k)).mp (by simp [Table.get?])
          rw [hys.get?_of_lt_head hlt] at hsome
          cases hsome
      subst hkl
      have hfirst := h k
      simp only [Table.get?, if_true, Option.rel_some_some] at hfirst
      have htails : SameFields xs ys := by
        intro name
        by_cases hname : k = name
        · subst hname
          rw [get?_tail hxs, get?_tail hys]
          exact .none
        · have hlater := h name
          simpa only [Table.get?, if_neg hname] using hlater
      have hrest := ih htails (List.pairwise_cons.mp hxs).2 (List.pairwise_cons.mp hys).2
      simp [Value.equalFields, hfirst, hrest]

def Contained (xs ys : List (String × Value)) : Prop :=
  xs.length = ys.length ∧ ∀ e ∈ xs, ∃ w, Table.get? ys e.1 = some w ∧ e.2.equals w = true

private theorem contained_iff (hxs : Table.Sorted xs) (hys : Table.Sorted ys) :
    Contained xs ys ↔ SameFields xs ys := by
  constructor
  · rintro ⟨hlength, hfields⟩ name
    have hnames : ∀ n ∈ Table.keys xs, n ∈ Table.keys ys := by
      intro n hn
      obtain ⟨e, he, rfl⟩ := List.mem_map.mp hn
      obtain ⟨w, hw, _⟩ := hfields e he
      exact Table.isSome_get?.mp (by rw [hw]; rfl)
    have hcount : (Table.keys ys).length ≤ (Table.keys xs).length := by
      simp [Table.keys, hlength]
    have hperm : (Table.keys xs).Perm (Table.keys ys) :=
      (List.subperm_of_subset hxs.nodup_keys hnames).perm_of_length_le hcount
    cases hget : Table.get? xs name with
    | some v =>
      obtain ⟨w, hw, hvw⟩ := hfields _ (Table.mem_of_get? hget)
      rw [hw]
      exact .some hvw
    | none =>
      have hnone : Table.get? ys name = none := by
        rw [← Option.not_isSome_iff_eq_none, Table.isSome_get?, ← hperm.mem_iff,
          ← Table.isSome_get?, hget]
        simp
      rw [hnone]
      exact .none
  · intro h
    refine ⟨(equalFields_iff.mp (h.equalFields hxs hys)).length_eq, fun e he => ?_⟩
    have hfield := h e.1
    rw [Table.get?_of_mem hxs.nodup_keys he] at hfield
    cases hother : Table.get? ys e.1 with
    | none =>
      rw [hother] at hfield
      exact absurd hfield (by simp)
    | some w =>
      rw [hother] at hfield
      exact ⟨w, rfl, by simpa using hfield⟩

/-- Equality of values is an equivalence that goes by what numbers mean and by what lists and tables
hold: lists are equal item by item, tables when they have equal fields, and two numbers when they are
the same rational number. -/
theorem equals_by_meaning :
    (∀ v : Value, v.equals v = true) ∧
    (∀ v w : Value, v.equals w = true → w.equals v = true) ∧
    (∀ u v w : Value, u.equals v = true → v.equals w = true → u.equals w = true) ∧
    (∀ xs ys, (array xs).equals (array ys) = true ↔
      List.Forall₂ (fun v w => v.equals w = true) xs ys) ∧
    (∀ xs ys, (object xs).Storable → (object ys).Storable →
      ((object xs).equals (object ys) = true ↔ SameFields xs ys) ∧
      ((object xs).equals (object ys) = true ↔ Contained xs ys)) ∧
    ∀ a b : Number, a.Storable → b.Storable →
      ((number a).equals (number b) = true ↔ a.exact = b.exact) := by
  refine ⟨equals_refl, fun v w h => equals_comm v w ▸ h, fun u v w => equals_trans,
    fun xs ys => equalItems_iff, fun xs ys hxs hys => ?_, fun a b ha hb => ?_⟩
  · have hsame : (object xs).equals (object ys) = true ↔ SameFields xs ys :=
      ⟨sameFields_of_equalFields, fun h => h.equalFields hxs.1 hys.1⟩
    exact ⟨hsame, hsame.trans (contained_iff hxs.1 hys.1).symm⟩
  · exact Number.equals_iff_exact ha hb

/-- At the last integers: one above `2 ^ 53` is no floating point number, the least one is, and the
power of two after the greatest one is not an integer of 64 bits. -/
theorem equals_by_meaning_limits :
    (ofInt 9007199254740993).equals (ofDouble (.ofInt 9007199254740992)) = false ∧
    (ofInt (-0x8000000000000000)).equals (ofDouble (.ofInt (-0x8000000000000000))) = true ∧
    (ofInt 0xFFFFFFFFFFFFFFFF).equals (ofDouble (.ofInt 0x10000000000000000)) = false ∧
    (object [("at", array [ofInt 0])]).equals
      (object [("at", array [ofDouble .negativeZero])]) = true := by
  have hnumbers := equals_by_meaning.2.2.2.2.2
  refine ⟨?_, ?_, ?_, ?_⟩
  · exact Bool.eq_false_iff.mpr ((hnumbers (.int 9007199254740993)
      (.float (.ofInt 9007199254740992)) (by decide) (by decide +kernel)).not.mpr
        (by decide +kernel))
  · exact (hnumbers (.int (-0x8000000000000000)) (.float (.ofInt (-0x8000000000000000)))
      (by decide) (by decide +kernel)).mpr (by decide +kernel)
  · exact Bool.eq_false_iff.mpr ((hnumbers (.int 0xFFFFFFFFFFFFFFFF)
      (.float (.ofInt 0x10000000000000000)) (by decide) (by decide +kernel)).not.mpr
        (by decide +kernel))
  · refine ((equals_by_meaning.2.2.2.2.1 _ _ (by decide +kernel) (by decide +kernel)).2).mpr
      ⟨rfl, fun e he => ?_⟩
    obtain rfl := List.mem_singleton.mp he
    refine ⟨_, rfl, (equals_by_meaning.2.2.2.1 _ _).mpr (.cons ?_ .nil)⟩
    exact (hnumbers (.int 0) (.float .negativeZero) (by decide) (by decide +kernel)).mpr
      (by decide +kernel)

end Value

end ConceptSync
