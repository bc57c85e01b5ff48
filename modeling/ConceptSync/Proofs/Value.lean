import Mathlib.Data.Int.Order.Basic
import ConceptSync.Value

set_option autoImplicit false
set_option relaxedAutoImplicit false

/-!
Equality of values by the value of their numbers is an equivalence. A floating point number that is
compared with an integer is looked at through its exact value alone.
-/

namespace ConceptSync

namespace Double

theorem magnitude_eq_natAbs (x : Double) : x.magnitude = x.value.natAbs := by
  unfold value
  split <;> simp

theorem truncate_eq_tdiv (x : Double) : x.truncate = x.value.tdiv unit := by
  unfold truncate value
  split
  · rw [Int.neg_tdiv]
    rfl
  · rfl

private theorem value_of_isWhole {x : Double} (h : x.isWhole = true) :
    x.value = unit * x.truncate := by
  have hmod : x.magnitude % unit = 0 := by simpa [isWhole] using h
  have hmagnitude : (unit : Int) * (x.magnitude / unit : Nat) = x.magnitude := by
    exact_mod_cast Nat.mul_div_cancel' (Nat.dvd_of_mod_eq_zero hmod)
  unfold value truncate
  split
  · rw [Int.mul_neg, hmagnitude]
  · rw [hmagnitude]

theorem eqv_iff {x y : Double} : x.eqv y = true ↔ x.value = y.value := by
  simp [eqv]

end Double

namespace Number

private theorem floatIs_congr {x y : Double} (h : x.value = y.value) (n : Int) :
    floatIs x n = floatIs y n := by
  have hmagnitude : x.magnitude = y.magnitude := by
    rw [Double.magnitude_eq_natAbs, Double.magnitude_eq_natAbs, h]
  simp only [floatIs, Double.isWhole, comparable, hmagnitude, Double.truncate_eq_tdiv, h]

theorem value_of_floatIs {x : Double} {n : Int} (h : floatIs x n = true) :
    x.value = Double.unit * n := by
  simp only [floatIs, Bool.and_eq_true, beq_iff_eq] at h
  rw [Double.value_of_isWhole h.1.1, h.2]

private theorem truncate_of_floatIs {x : Double} {n : Int} (h : floatIs x n = true) :
    x.truncate = n := by
  simp only [floatIs, Bool.and_eq_true, beq_iff_eq] at h
  exact h.2

@[simp] theorem equals_refl (a : Number) : a.equals a = true := by
  cases a with
  | int n => exact beq_self_eq_true n
  | float x => exact Double.eqv_iff.mpr rfl

private theorem equals_comm (a b : Number) : a.equals b = b.equals a := by
  cases a <;> cases b <;> simp only [equals, Double.eqv] <;> exact Bool.beq_comm

private theorem equals_trans {a b c : Number} (hab : a.equals b = true) (hbc : b.equals c = true) :
    a.equals c = true := by
  cases b with
  | int n =>
    cases a <;> cases c <;> simp only [equals, beq_iff_eq] at hab hbc ⊢
    · rw [hab, hbc]
    · rw [hab]
      exact hbc
    · rw [← hbc]
      exact hab
    · rw [Double.eqv_iff, value_of_floatIs hab, value_of_floatIs hbc]
  | float x =>
    cases a <;> cases c <;> simp only [equals, Double.eqv_iff, beq_iff_eq] at hab hbc ⊢
    · rw [← truncate_of_floatIs hab, truncate_of_floatIs hbc]
    · rw [← floatIs_congr hbc]
      exact hab
    · rw [floatIs_congr hab]
      exact hbc
    · rw [hab, hbc]

end Number

namespace Value

mutual

@[simp] theorem equals_refl (v : Value) : v.equals v = true := by
  cases v with
  | null => rfl
  | bool b => exact beq_self_eq_true b
  | number n => exact n.equals_refl
  | string s => exact beq_self_eq_true s
  | array xs => exact equalItems_refl xs
  | object xs => exact equalFields_refl xs

private theorem equalItems_refl (xs : List Value) : equalItems xs xs = true := by
  cases xs with
  | nil => rfl
  | cons x xs => simp only [equalItems, equals_refl x, equalItems_refl xs, Bool.and_self]

private theorem equalFields_refl (xs : List (String × Value)) : equalFields xs xs = true := by
  cases xs with
  | nil => rfl
  | cons x xs =>
    obtain ⟨k, x⟩ := x
    simp only [equalFields, beq_self_eq_true, equals_refl x, equalFields_refl xs, Bool.and_self]

end

mutual

theorem equals_comm (v w : Value) : v.equals w = w.equals v := by
  cases v with
  | null => cases w <;> rfl
  | bool a =>
    cases w <;> simp only [equals]
    exact Bool.beq_comm
  | number a =>
    cases w <;> simp only [equals]
    exact Number.equals_comm a _
  | string a =>
    cases w <;> simp only [equals]
    exact Bool.beq_comm
  | array xs =>
    cases w <;> simp only [equals]
    exact equalItems_comm xs _
  | object xs =>
    cases w <;> simp only [equals]
    exact equalFields_comm xs _

private theorem equalItems_comm (xs ys : List Value) : equalItems xs ys = equalItems ys xs := by
  cases xs with
  | nil => cases ys <;> rfl
  | cons x xs =>
    cases ys with
    | nil => rfl
    | cons y ys => simp only [equalItems, equals_comm x y, equalItems_comm xs ys]

private theorem equalFields_comm (xs ys : List (String × Value)) :
    equalFields xs ys = equalFields ys xs := by
  cases xs with
  | nil => cases ys <;> rfl
  | cons x xs =>
    obtain ⟨k, x⟩ := x
    cases ys with
    | nil => rfl
    | cons y ys =>
      obtain ⟨l, y⟩ := y
      simp only [equalFields, equals_comm x y, equalFields_comm xs ys,
        show (k == l) = (l == k) from Bool.beq_comm]

end

mutual

theorem equals_trans {u v w : Value} (huv : u.equals v = true) (hvw : v.equals w = true) :
    u.equals w = true := by
  cases v with
  | null => cases u <;> cases w <;> simp_all [equals]
  | bool b => cases u <;> cases w <;> simp_all [equals]
  | string s => cases u <;> cases w <;> simp_all [equals]
  | number b =>
    cases u <;> cases w <;> simp only [equals] at huv hvw ⊢ <;> try contradiction
    exact Number.equals_trans huv hvw
  | array ys =>
    cases u <;> cases w <;> simp only [equals] at huv hvw ⊢ <;> try contradiction
    exact equalItems_trans huv hvw
  | object ys =>
    cases u <;> cases w <;> simp only [equals] at huv hvw ⊢ <;> try contradiction
    exact equalFields_trans huv hvw
termination_by structural v

private theorem equalItems_trans {xs ys zs : List Value} (hxy : equalItems xs ys = true)
    (hyz : equalItems ys zs = true) : equalItems xs zs = true := by
  cases ys with
  | nil => cases xs <;> cases zs <;> simp_all [equalItems]
  | cons y ys =>
    cases xs <;> cases zs <;> simp only [equalItems, Bool.and_eq_true] at hxy hyz ⊢ <;>
      try contradiction
    exact ⟨equals_trans hxy.1 hyz.1, equalItems_trans hxy.2 hyz.2⟩
termination_by structural ys

private theorem equalFields_trans {xs ys zs : List (String × Value)}
    (hxy : equalFields xs ys = true) (hyz : equalFields ys zs = true) :
    equalFields xs zs = true := by
  cases ys with
  | nil => cases xs <;> cases zs <;> simp_all [equalFields]
  | cons y ys =>
    obtain ⟨l, y⟩ := y
    cases xs <;> cases zs <;>
      simp only [equalFields, Bool.and_eq_true, beq_iff_eq] at hxy hyz ⊢ <;> try contradiction
    exact ⟨⟨hxy.1.1.trans hyz.1.1, equals_trans hxy.1.2 hyz.1.2⟩, equalFields_trans hxy.2 hyz.2⟩
termination_by structural ys

end

end Value

end ConceptSync
