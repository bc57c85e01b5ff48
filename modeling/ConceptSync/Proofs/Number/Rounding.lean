import Mathlib.Algebra.Order.Ring.Rat
import Mathlib.Order.Monotone.Basic
import Mathlib.Tactic.GCongr
import Mathlib.Tactic.Linarith
import Mathlib.Tactic.Positivity
import Mathlib.Tactic.Ring
import ConceptSync.Number.Double

set_option autoImplicit false
set_option relaxedAutoImplicit false

/-!
Rounding of sums. A magnitude in units is rounded to 53 binary digits, which changes it by at most
one part in `2 ^ 53`, and leaves it as it is if its lower digits are zero. The sum of two numbers
that are not negative is the rounded sum of their magnitudes, up to the infinite one, so the sum of
a list is as far off as its length allows and no farther.
-/

namespace ConceptSync

namespace Double

def excess (n : Nat) : Nat := n.log2 - 52

def kept (n : Nat) : Nat :=
  let step := 2 ^ excess n
  if step < 2 * (n % step) ∨ (2 * (n % step) = step ∧ n / step % 2 = 1) then n / step + 1
  else n / step

def rounded (n : Nat) : Nat := kept n * 2 ^ excess n

theorem excess_of_lt {n : Nat} (h : n < 2 ^ 53) : excess n = 0 := by
  by_cases hzero : n = 0
  · subst hzero
    rfl
  · have hlog : n.log2 < 53 := (Nat.log2_lt hzero).mpr h
    unfold excess
    omega

theorem two_pow_excess_le {n : Nat} (h : 2 ^ 53 ≤ n) :
    2 ^ 52 * 2 ^ excess n ≤ n ∧ n < 2 ^ 53 * 2 ^ excess n ∧ n.log2 = 52 + excess n ∧
      1 ≤ excess n := by
  have hzero : n ≠ 0 := by omega
  have hlog : 53 ≤ n.log2 := (Nat.le_log2 hzero).mpr h
  have hexcess : n.log2 = 52 + excess n := by
    unfold excess
    omega
  have hlow := Nat.log2_self_le hzero
  have hhigh : n < 2 ^ (n.log2 + 1) := Nat.lt_log2_self
  rw [hexcess] at hlow hhigh
  refine ⟨?_, ?_, hexcess, by omega⟩
  · rwa [← Nat.pow_add]
  · rw [← Nat.pow_add]
    rwa [show 53 + excess n = 52 + excess n + 1 by omega]

private theorem kept_cases (n : Nat) :
    kept n = n / 2 ^ excess n ∧ 2 * (n % 2 ^ excess n) ≤ 2 ^ excess n ∨
      kept n = n / 2 ^ excess n + 1 ∧ 2 ^ excess n ≤ 2 * (n % 2 ^ excess n) := by
  unfold kept
  simp only
  split
  · right
    omega
  · left
    omega

private theorem rounded_near (n : Nat) :
    2 * rounded n ≤ 2 * n + 2 ^ excess n ∧ 2 * n ≤ 2 * rounded n + 2 ^ excess n := by
  have hsplit := Nat.div_add_mod n (2 ^ excess n)
  have hrest := Nat.mod_lt n (Nat.two_pow_pos (excess n))
  unfold rounded
  rw [Nat.mul_comm] at hsplit
  rcases kept_cases n with ⟨hkept, hhalf⟩ | ⟨hkept, hhalf⟩
  · rw [hkept]
    omega
  · rw [hkept, Nat.add_mul]
    omega

private theorem rounded_of_dvd {n : Nat} (h : 2 ^ excess n ∣ n) : rounded n = n := by
  have hrest : n % 2 ^ excess n = 0 := Nat.mod_eq_zero_of_dvd h
  have hpos := Nat.two_pow_pos (excess n)
  have hkept : kept n = n / 2 ^ excess n := by
    rcases kept_cases n with ⟨hkept, _⟩ | ⟨_, hhalf⟩
    · exact hkept
    · omega
  rw [rounded, hkept, Nat.div_mul_cancel h]

private theorem rounded_of_lt {n : Nat} (h : n < 2 ^ 53) : rounded n = n := by
  apply rounded_of_dvd
  rw [excess_of_lt h, Nat.pow_zero]
  exact Nat.one_dvd n

theorem rounded_of_multiple {n k : Nat} (hmultiple : 2 ^ k ∣ n) (hn : n ≤ 2 ^ (53 + k)) :
    rounded n = n := by
  by_cases hsmall : n < 2 ^ 53
  · exact rounded_of_lt hsmall
  · obtain ⟨hlow, _, _, _⟩ := two_pow_excess_le (Nat.not_lt.mp hsmall)
    apply rounded_of_dvd
    by_cases hexcess : excess n ≤ k
    · exact (Nat.pow_dvd_pow 2 hexcess).trans hmultiple
    · -- with one digit more than those of the power, the number is the greatest one allowed
      have hbound : 2 ^ (52 + excess n) ≤ 2 ^ (53 + k) := by
        rw [Nat.pow_add]
        exact hlow.trans hn
      have hdigits := (Nat.pow_le_pow_iff_right (by omega)).mp hbound
      have heq : excess n = k + 1 := by omega
      have hmax : n = 2 ^ (53 + k) := by
        refine Nat.le_antisymm hn ?_
        rw [show 53 + k = 52 + excess n by omega, Nat.pow_add]
        exact hlow
      rw [heq, hmax]
      exact Nat.pow_dvd_pow 2 (by omega)

theorem two_pow_le_rounded {n k : Nat} (h : 2 ^ k ≤ n) : 2 ^ k ≤ rounded n := by
  by_cases hsmall : n < 2 ^ 53
  · rwa [rounded_of_lt hsmall]
  · obtain ⟨hlow, _, hlog, _⟩ := two_pow_excess_le (Nat.not_lt.mp hsmall)
    have hzero : n ≠ 0 := by omega
    have hk : k ≤ 52 + excess n := hlog ▸ (Nat.le_log2 hzero).mpr h
    have hdigits : 2 ^ 52 ≤ n / 2 ^ excess n :=
      (Nat.le_div_iff_mul_le (Nat.two_pow_pos _)).mpr hlow
    have hkept : 2 ^ 52 ≤ kept n := by
      rcases kept_cases n with ⟨hkept, _⟩ | ⟨hkept, _⟩ <;> omega
    calc 2 ^ k ≤ 2 ^ (52 + excess n) := Nat.pow_le_pow_right (by omega) hk
      _ = 2 ^ 52 * 2 ^ excess n := Nat.pow_add 2 52 (excess n)
      _ ≤ rounded n := Nat.mul_le_mul_right _ hkept

private theorem rounded_bounds (n : Nat) :
    rounded n * 2 ^ 53 ≤ n * (2 ^ 53 + 1) ∧ n * (2 ^ 53 - 1) ≤ rounded n * 2 ^ 53 := by
  by_cases hsmall : n < 2 ^ 53
  · rw [rounded_of_lt hsmall]
    omega
  · obtain ⟨hlow, _, _, _⟩ := two_pow_excess_le (Nat.not_lt.mp hsmall)
    obtain ⟨hup, hdown⟩ := rounded_near n
    omega

example : rounded (2 ^ 53 + 1) = 2 ^ 53 ∧ rounded (2 ^ 53 + 3) = 2 ^ 53 + 4 := by decide +kernel

/-! ### Ranks and magnitudes -/

theorem unitsOfRank_of_lt {rank : Nat} (h : rank < 2 ^ 53) : unitsOfRank rank = rank :=
  if_pos h

theorem unitsOfRank_normal {shift digits : Nat} (hshift : 1 ≤ shift) (hlow : 2 ^ 52 ≤ digits)
    (hhigh : digits ≤ 2 ^ 53) : unitsOfRank (shift * 2 ^ 52 + digits) = digits * 2 ^ shift := by
  have hnormal : ¬shift * 2 ^ 52 + digits < 0x20000000000000 := by omega
  rw [unitsOfRank, if_neg hnormal, Nat.shiftLeft_eq]
  by_cases hcarry : digits = 2 ^ 53
  · have hmod : (shift * 2 ^ 52 + digits) % 0x10000000000000 = 0 := by omega
    have hdiv : (shift * 2 ^ 52 + digits) / 0x10000000000000 - 1 = shift + 1 := by omega
    rw [hmod, hdiv, hcarry, Nat.pow_succ]
    omega
  · have hmod : (shift * 2 ^ 52 + digits) % 0x10000000000000 + 0x10000000000000 = digits := by
      omega
    have hdiv : (shift * 2 ^ 52 + digits) / 0x10000000000000 - 1 = shift := by omega
    rw [hmod, hdiv]

theorem strictMono_unitsOfRank : StrictMono unitsOfRank := by
  refine strictMono_nat_of_lt_succ fun rank => ?_
  by_cases hsmall : rank < 2 ^ 53
  · rw [unitsOfRank_of_lt hsmall]
    by_cases hnext : rank + 1 < 2 ^ 53
    · rw [unitsOfRank_of_lt hnext]
      omega
    · have hlast : rank + 1 = 1 * 2 ^ 52 + 2 ^ 52 := by omega
      rw [hlast, unitsOfRank_normal (by omega) (by omega) (by omega)]
      omega
  · obtain ⟨shift, digits, hrank, hshift, hlow, hhigh⟩ : ∃ shift digits,
        rank = shift * 2 ^ 52 + digits ∧ 1 ≤ shift ∧ 2 ^ 52 ≤ digits ∧ digits < 2 ^ 53 :=
      ⟨rank / 2 ^ 52 - 1, rank % 2 ^ 52 + 2 ^ 52, by omega, by omega, by omega, by omega⟩
    rw [hrank, Nat.add_assoc, unitsOfRank_normal hshift hlow (by omega),
      unitsOfRank_normal hshift (by omega) (by omega)]
    exact Nat.mul_lt_mul_of_pos_right (by omega) (Nat.two_pow_pos shift)

def limit : Nat := unitsOfRank infinityRank

theorem limit_eq : limit = 2 ^ (53 + 2045) := by
  have hrank : infinityRank = 2045 * 2 ^ 52 + 2 ^ 53 := rfl
  rw [limit, hrank, unitsOfRank_normal (by omega) (by omega) (by omega), Nat.pow_add]

theorem unitsOfRank_nearestRank (n : Nat) :
    unitsOfRank (nearestRank n 1) = min (rounded n) limit := by
  have hrank : nearestRank n 1 = min (excess n * 2 ^ 52 + kept n) infinityRank := by
    simp only [nearestRank, excess, kept, Nat.div_one, Nat.shiftLeft_eq, Nat.one_mul]
    congr
  have hunits : unitsOfRank (excess n * 2 ^ 52 + kept n) = rounded n := by
    by_cases hsmall : n < 2 ^ 53
    · have hrounded := rounded_of_lt hsmall
      rw [rounded, excess_of_lt hsmall, Nat.pow_zero, Nat.mul_one] at hrounded
      rw [rounded_of_lt hsmall, excess_of_lt hsmall, hrounded, Nat.zero_mul, Nat.zero_add,
        unitsOfRank_of_lt hsmall]
    · obtain ⟨hlow, hhigh, _, hexcess⟩ := two_pow_excess_le (Nat.not_lt.mp hsmall)
      have hpos := Nat.two_pow_pos (excess n)
      have hfirst : 2 ^ 52 ≤ n / 2 ^ excess n := (Nat.le_div_iff_mul_le hpos).mpr hlow
      have hlast : n / 2 ^ excess n < 2 ^ 53 := (Nat.div_lt_iff_lt_mul hpos).mpr hhigh
      refine unitsOfRank_normal hexcess ?_ ?_ <;>
        rcases kept_cases n with ⟨hkept, _⟩ | ⟨hkept, _⟩ <;> omega
  rw [hrank, strictMono_unitsOfRank.monotone.map_min, hunits, limit]

/-! ### Sums -/

variable {x y : Double}

theorem magnitude_le_limit (x : Double) : x.magnitude ≤ limit :=
  strictMono_unitsOfRank.monotone x.rank_le

theorem isInfinite_iff : x.isInfinite = true ↔ x.magnitude = limit := by
  simp only [isInfinite, beq_iff_eq, magnitude, limit]
  exact strictMono_unitsOfRank.injective.eq_iff.symm

theorem isFinite_iff : x.isInfinite = false ↔ x.magnitude < limit := by
  have hle := magnitude_le_limit x
  rw [← Bool.not_eq_true, isInfinite_iff]
  omega

private theorem value_of_nonneg (h : 0 ≤ x.value) : x.value = x.magnitude := by
  unfold value at h ⊢
  split
  · next hnegative =>
    rw [if_pos hnegative] at h
    omega
  · rfl

private theorem value_nearest_false (n d : Nat) :
    (nearest false n d).value = (nearest false n d).magnitude := rfl

theorem add_of_nonneg (hx : 0 ≤ x.value) (hy : 0 ≤ y.value) :
    0 ≤ (x.add y).value ∧
      (x.add y).magnitude = min (rounded (x.magnitude + y.magnitude)) limit := by
  have hover : ∀ n, limit ≤ n → min (rounded n) limit = limit := by
    intro n hn
    rw [limit_eq] at hn ⊢
    exact Nat.min_eq_right (two_pow_le_rounded hn)
  unfold add
  split
  · next hinfinite =>
    rw [isInfinite_iff] at hinfinite
    exact ⟨hx, by rw [hover _ (by omega), hinfinite]⟩
  · split
    · next hinfinite =>
      rw [isInfinite_iff] at hinfinite
      exact ⟨hy, by rw [hover _ (by omega), hinfinite]⟩
    · rw [value_of_nonneg hx, value_of_nonneg hy]
      simp only
      split
      · next hzero =>
        have hsum : x.magnitude + y.magnitude = 0 := by omega
        rw [hsum]
        split <;> decide +kernel
      · have hnot : decide ((x.magnitude : Int) + y.magnitude < 0) = false :=
          decide_eq_false (by omega)
        have habs : ((x.magnitude : Int) + y.magnitude).natAbs = x.magnitude + y.magnitude := by
          omega
        rw [hnot, habs, value_nearest_false]
        exact ⟨Int.natCast_nonneg _, unitsOfRank_nearestRank _⟩

theorem lt_iff_of_nonneg (hx : 0 ≤ x.value) (hy : 0 ≤ y.value) :
    x.lt y = true ↔ x.magnitude < y.magnitude := by
  rw [lt, decide_eq_true_iff, value_of_nonneg hx, value_of_nonneg hy]
  omega

theorem zero_lt_iff : zero.lt x = true ↔ 0 < x.value := by
  have hzero : zero.value = 0 := by decide +kernel
  rw [lt, decide_eq_true_iff, hzero]

theorem zero_lt_add (hx : 0 ≤ x.value) (hy : zero.lt y = true) : zero.lt (x.add y) = true := by
  rw [zero_lt_iff] at hy ⊢
  obtain ⟨hsum, hmagnitude⟩ := add_of_nonneg hx hy.le
  have hy' := value_of_nonneg hy.le
  have hone : 2 ^ 0 ≤ rounded (x.magnitude + y.magnitude) :=
    two_pow_le_rounded (by omega)
  have hlimit : 0 < limit := strictMono_unitsOfRank (by decide : 0 < infinityRank)
  rw [value_of_nonneg hsum, hmagnitude]
  omega

def roundoff : ℚ := 1 / 2 ^ 53

theorem roundoff_pos : 0 < roundoff := by
  unfold roundoff
  positivity

theorem roundoff_lt_one : roundoff < 1 := by
  unfold roundoff
  norm_num

theorem magnitude_add_le (hx : 0 ≤ x.value) (hy : 0 ≤ y.value) :
    ((x.add y).magnitude : ℚ) ≤ (x.magnitude + y.magnitude) * (1 + roundoff) := by
  rw [(add_of_nonneg hx hy).2]
  have hbound := (rounded_bounds (x.magnitude + y.magnitude)).1
  have hrounded : (rounded (x.magnitude + y.magnitude) : ℚ) * 2 ^ 53 ≤
      (x.magnitude + y.magnitude) * (2 ^ 53 + 1) := by exact_mod_cast hbound
  have hmin : ((min (rounded (x.magnitude + y.magnitude)) limit : ℕ) : ℚ) ≤
      rounded (x.magnitude + y.magnitude) := by exact_mod_cast Nat.min_le_left _ _
  unfold roundoff
  linarith

theorem le_magnitude_add (hx : 0 ≤ x.value) (hy : 0 ≤ y.value)
    (hfinite : (x.add y).isInfinite = false) :
    (x.magnitude + y.magnitude : ℚ) * (1 - roundoff) ≤ (x.add y).magnitude := by
  have hmagnitude := (add_of_nonneg hx hy).2
  have hunder : (x.add y).magnitude = rounded (x.magnitude + y.magnitude) := by
    have hlt := isFinite_iff.mp hfinite
    omega
  have hbound := (rounded_bounds (x.magnitude + y.magnitude)).2
  rw [← hunder] at hbound
  have hrounded : (x.magnitude + y.magnitude : ℚ) * ((2 ^ 53 - 1 : ℕ) : ℚ) ≤
      (x.add y).magnitude * 2 ^ 53 := by exact_mod_cast hbound
  unfold roundoff
  norm_num at hrounded ⊢
  linarith

theorem magnitude_add_of_multiple {k : Nat} (hx : 0 ≤ x.value) (hy : 0 ≤ y.value)
    (hxk : 2 ^ k ∣ x.magnitude) (hyk : 2 ^ k ∣ y.magnitude)
    (hsum : x.magnitude + y.magnitude ≤ 2 ^ (53 + k)) (hlimit : x.magnitude + y.magnitude ≤ limit) :
    (x.add y).magnitude = x.magnitude + y.magnitude := by
  rw [(add_of_nonneg hx hy).2, rounded_of_multiple (Nat.dvd_add hxk hyk) hsum]
  exact Nat.min_eq_left hlimit

/-! ### Sums of lists -/

def total (xs : List Double) : Nat := (xs.map magnitude).sum

theorem total_cons (x : Double) (xs : List Double) : total (x :: xs) = x.magnitude + total xs := by
  simp [total]

variable {start : Double} {xs : List Double}

theorem foldl_add_nonneg (hstart : 0 ≤ start.value) (hxs : ∀ x ∈ xs, 0 ≤ x.value) :
    0 ≤ (xs.foldl add start).value := by
  induction xs generalizing start with
  | nil => exact hstart
  | cons x xs ih =>
    obtain ⟨hx, hrest⟩ := List.forall_mem_cons.mp hxs
    exact ih (add_of_nonneg hstart hx).1 hrest

private theorem foldl_add_of_infinite (hstart : start.isInfinite = true) (xs : List Double) :
    xs.foldl add start = start := by
  induction xs with
  | nil => rfl
  | cons x xs ih =>
    have hadd : start.add x = start := if_pos hstart
    rw [List.foldl_cons, hadd, ih]

theorem foldl_add_le (hstart : 0 ≤ start.value) (hxs : ∀ x ∈ xs, 0 ≤ x.value) :
    ((xs.foldl add start).magnitude : ℚ) ≤
      (start.magnitude + total xs) * (1 + roundoff) ^ xs.length := by
  have hpos := roundoff_pos
  induction xs generalizing start with
  | nil => simp [total]
  | cons x xs ih =>
    obtain ⟨hx, hrest⟩ := List.forall_mem_cons.mp hxs
    have hfirst := magnitude_add_le hstart hx
    have htotal : (total xs : ℚ) ≤ total xs * (1 + roundoff) :=
      le_mul_of_one_le_right (Nat.cast_nonneg _) (by linarith)
    have hgain : ((start.add x).magnitude + total xs : ℚ) ≤
        (start.magnitude + total (x :: xs) : ℚ) * (1 + roundoff) := by
      rw [total_cons, Nat.cast_add]
      linarith
    calc (((x :: xs).foldl add start).magnitude : ℚ)
        ≤ ((start.add x).magnitude + total xs) * (1 + roundoff) ^ xs.length :=
          ih (add_of_nonneg hstart hx).1 hrest
      _ ≤ (start.magnitude + total (x :: xs)) * (1 + roundoff) * (1 + roundoff) ^ xs.length := by
          gcongr
      _ = (start.magnitude + total (x :: xs)) * (1 + roundoff) ^ (x :: xs).length := by
          rw [List.length_cons]
          ring

theorem le_foldl_add (hstart : 0 ≤ start.value) (hxs : ∀ x ∈ xs, 0 ≤ x.value)
    (hfinite : (xs.foldl add start).isInfinite = false) :
    (start.magnitude + total xs : ℚ) * (1 - roundoff) ^ xs.length ≤
      (xs.foldl add start).magnitude := by
  have hpos := roundoff_pos
  have hone := roundoff_lt_one
  induction xs generalizing start with
  | nil => simp [total]
  | cons x xs ih =>
    obtain ⟨hx, hrest⟩ := List.forall_mem_cons.mp hxs
    have hnext : (start.add x).isInfinite = false := by
      by_contra hinfinite
      rw [Bool.not_eq_false] at hinfinite
      rw [List.foldl_cons, foldl_add_of_infinite hinfinite, hinfinite] at hfinite
      cases hfinite
    have hfirst := le_magnitude_add hstart hx hnext
    have htotal : (total xs : ℚ) * (1 - roundoff) ≤ total xs :=
      mul_le_of_le_one_right (Nat.cast_nonneg _) (by linarith)
    have hloss : (start.magnitude + total (x :: xs) : ℚ) * (1 - roundoff) ≤
        (start.add x).magnitude + total xs := by
      rw [total_cons, Nat.cast_add]
      linarith
    have hpower : 0 ≤ (1 - roundoff) ^ xs.length := pow_nonneg (by linarith) _
    calc (start.magnitude + total (x :: xs) : ℚ) * (1 - roundoff) ^ (x :: xs).length
        = (start.magnitude + total (x :: xs)) * (1 - roundoff) * (1 - roundoff) ^ xs.length := by
          rw [List.length_cons]
          ring
      _ ≤ ((start.add x).magnitude + total xs) * (1 - roundoff) ^ xs.length := by gcongr
      _ ≤ ((x :: xs).foldl add start).magnitude :=
          ih (add_of_nonneg hstart hx).1 hrest hfinite

theorem foldl_add_of_multiple {k : Nat} (hstart : 0 ≤ start.value) (hxs : ∀ x ∈ xs, 0 ≤ x.value)
    (hstartk : 2 ^ k ∣ start.magnitude) (hxsk : ∀ x ∈ xs, 2 ^ k ∣ x.magnitude)
    (hsum : start.magnitude + total xs ≤ 2 ^ (53 + k))
    (hlimit : start.magnitude + total xs ≤ limit) :
    (xs.foldl add start).magnitude = start.magnitude + total xs := by
  induction xs generalizing start with
  | nil => simp [total]
  | cons x xs ih =>
    obtain ⟨hx, hrest⟩ := List.forall_mem_cons.mp hxs
    obtain ⟨hxk, hrestk⟩ := List.forall_mem_cons.mp hxsk
    rw [total_cons] at hsum hlimit ⊢
    have hexact := magnitude_add_of_multiple hstart hx hstartk hxk (by omega) (by omega)
    have hnext := (add_of_nonneg hstart hx).1
    rw [List.foldl_cons, ih hnext hrest (hexact ▸ Nat.dvd_add hstartk hxk) hrestk (by omega)
      (by omega), hexact, Nat.add_assoc]

end Double

end ConceptSync
