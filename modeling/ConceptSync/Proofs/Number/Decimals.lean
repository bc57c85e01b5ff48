import Mathlib.Tactic.SplitIfs
import ConceptSync.Number.Decimal
import ConceptSync.Proofs.Number.Nearest

set_option autoImplicit false
set_option relaxedAutoImplicit false

/-!
Decimal numbers for floating point numbers. The shortest numeral of a number always lies where every
decimal number is rounded to it, and 18 digits are enough to find one. Reading a numeral rounds more
than once, so it need not give the number back, but it does as long as the digits and the power of
ten are both exact.
-/

namespace ConceptSync

namespace Decimal

open Double

def units (d : Decimal) : Nat := d.digits * unit * 10 ^ d.exponent.toNat

def scale (d : Decimal) : Nat := 10 ^ (-d.exponent).toNat

def RoundsTo (d : Decimal) (rank : Nat) : Prop := Rounds d.units d.scale rank

variable {d : Decimal} {rank : Nat} {tie : Tie}

theorem scale_pos (d : Decimal) : 0 < d.scale := Nat.pow_pos (by decide)

/-! ### Writing -/

private theorem rounds_congr {n m d e : Nat} (hd : 0 < d) (he : 0 < e) (h : n * e = m * d) :
    Rounds n d rank ↔ Rounds m e rank := by
  have hdouble : 2 * n * e = 2 * m * d := by rw [Nat.mul_assoc, h, Nat.mul_assoc]
  have hswap : ∀ a, a * d * e = a * e * d := fun a => Nat.mul_right_comm a d e
  have hle : ∀ a, a * d ≤ 2 * n ↔ a * e ≤ 2 * m := fun a => by
    rw [← Nat.mul_le_mul_right_iff he, hswap, hdouble, Nat.mul_le_mul_right_iff hd]
  have hge : ∀ a, 2 * n ≤ a * d ↔ 2 * m ≤ a * e := fun a => by
    rw [← Nat.mul_le_mul_right_iff he, hswap, hdouble, Nat.mul_le_mul_right_iff hd]
  unfold Rounds
  simp only [← Nat.not_le, hle, hge]

instance (n d rank : Nat) : Decidable (Rounds n d rank) := by
  unfold Rounds
  infer_instance

instance (d : Decimal) (rank : Nat) : Decidable (d.RoundsTo rank) :=
  inferInstanceAs (Decidable (Rounds d.units d.scale rank))

def below (rank : Nat) (exponent : Int) : Nat :=
  2 * unitsOfRank rank * 10 ^ (-exponent).toNat / (2 * unit * 10 ^ exponent.toNat)

private theorem onGrid_spec (tie : Tie) (rank : Nat) (exponent : Int) :
    match onGrid tie rank exponent with
    | some digits => RoundsTo ⟨digits, exponent⟩ rank
    | none => ¬RoundsTo ⟨below rank exponent, exponent⟩ rank ∧
        ¬RoundsTo ⟨below rank exponent + 1, exponent⟩ rank := by
  have hreads : ∀ n, (if rank % 2 = 0 then
      decide ((unitsOfRank (rank - 1) + unitsOfRank rank) * Nat.pow 10 (-exponent).toNat ≤
        n * (2 * unit * Nat.pow 10 exponent.toNat) ∧
        n * (2 * unit * Nat.pow 10 exponent.toNat) ≤
          (unitsOfRank rank + unitsOfRank (rank + 1)) * Nat.pow 10 (-exponent).toNat)
      else decide ((unitsOfRank (rank - 1) + unitsOfRank rank) * Nat.pow 10 (-exponent).toNat <
        n * (2 * unit * Nat.pow 10 exponent.toNat) ∧
        n * (2 * unit * Nat.pow 10 exponent.toNat) <
          (unitsOfRank rank + unitsOfRank (rank + 1)) * Nat.pow 10 (-exponent).toNat)) =
      decide (RoundsTo ⟨n, exponent⟩ rank) := by
    intro n
    have hdouble : n * (2 * unit * 10 ^ exponent.toNat) = 2 * (n * unit * 10 ^ exponent.toNat) := by
      ring
    simp only [RoundsTo, Rounds, units, scale, Nat.pow_eq, hdouble]
    split <;> rfl
  have hbelow : 2 * unitsOfRank rank * Nat.pow 10 (-exponent).toNat /
      (2 * unit * Nat.pow 10 exponent.toNat) = below rank exponent := rfl
  simp only [onGrid, hreads, hbelow]
  by_cases hfirst : RoundsTo ⟨below rank exponent, exponent⟩ rank <;>
    by_cases hsecond : RoundsTo ⟨below rank exponent + 1, exponent⟩ rank
  · simp only [hfirst, hsecond, decide_true]
    split_ifs
    · exact hfirst
    · exact hsecond
    · cases tie with
      | even => exact hfirst
      | up => exact hsecond
    · cases tie <;> exact hsecond
  · simp [hfirst, hsecond]
  · simp [hfirst, hsecond]
  · simp [hfirst, hsecond]

private theorem roundsTo_zero (digits : Nat) (exponent : Int) :
    RoundsTo ⟨digits * 10, exponent⟩ rank ↔ RoundsTo ⟨digits, exponent + 1⟩ rank := by
  refine rounds_congr (scale_pos _) (scale_pos _) ?_
  simp only [units, scale]
  by_cases hneg : exponent < 0
  · have hup : exponent.toNat = 0 := by omega
    have hup' : (exponent + 1).toNat = 0 := by omega
    have hdown : (-exponent).toNat = (-(exponent + 1)).toNat + 1 := by omega
    rw [hup, hup', hdown]
    ring
  · have hup : (exponent + 1).toNat = exponent.toNat + 1 := by omega
    have hdown : (-exponent).toNat = 0 := by omega
    have hdown' : (-(exponent + 1)).toNat = 0 := by omega
    rw [hup, hdown, hdown']
    ring

theorem roundsTo_zeros (zeros : Nat) :
    RoundsTo ⟨d.digits * 10 ^ zeros, d.exponent - zeros⟩ rank ↔ d.RoundsTo rank := by
  induction zeros with
  | zero => simp
  | succ zeros ih =>
    rw [Nat.pow_succ, ← Nat.mul_assoc, roundsTo_zero, ← ih]
    have hexponent : d.exponent - (zeros + 1 : Nat) + 1 = d.exponent - zeros := by omega
    rw [hexponent]

private theorem roundsTo_trim (fuel : Nat) : (trim fuel d).RoundsTo rank ↔ d.RoundsTo rank := by
  induction fuel generalizing d with
  | zero => rfl
  | succ fuel ih =>
    rw [trim]
    split
    · next h =>
      have hdigits : d.digits = d.digits / 10 * 10 :=
        (Nat.div_mul_cancel (Nat.dvd_of_mod_eq_zero h.2)).symm
      rw [ih, ← roundsTo_zero, ← hdigits]
    · rfl

private theorem roundsTo_of_lt {digits : Nat} {exponent : Int}
    (hlow : (unitsOfRank (rank - 1) + unitsOfRank rank) * 10 ^ (-exponent).toNat <
      digits * (2 * unit * 10 ^ exponent.toNat))
    (hhigh : digits * (2 * unit * 10 ^ exponent.toNat) <
      (unitsOfRank rank + unitsOfRank (rank + 1)) * 10 ^ (-exponent).toNat) :
    RoundsTo ⟨digits, exponent⟩ rank := by
  have hdouble : digits * (2 * unit * 10 ^ exponent.toNat) =
      2 * (digits * unit * 10 ^ exponent.toNat) := by ring
  rw [hdouble] at hlow hhigh
  simp only [RoundsTo, Rounds, units, scale]
  split
  · exact ⟨hlow.le, hhigh.le⟩
  · exact ⟨hlow, hhigh⟩

private theorem exists_onGrid {exponent : Int} (hrank : 0 < rank)
    (h : 2 * unit * 10 ^ exponent.toNat + unitsOfRank rank * 10 ^ (-exponent).toNat ≤
      unitsOfRank (rank + 1) * 10 ^ (-exponent).toNat) :
    ∃ digits, onGrid tie rank exponent = some digits := by
  have hspec := onGrid_spec tie rank exponent
  cases hgrid : onGrid tie rank exponent with
  | some digits => exact ⟨digits, rfl⟩
  | none =>
    rw [hgrid] at hspec
    obtain ⟨hbelow, habove⟩ := hspec
    have hscale : 0 < 10 ^ (-exponent).toNat := Nat.pow_pos (by decide)
    have hstep : 0 < 2 * unit * 10 ^ exponent.toNat :=
      Nat.mul_pos (by decide +kernel) (Nat.pow_pos (by decide))
    have hprevious := Nat.mul_lt_mul_of_pos_right
      (strictMono_unitsOfRank (show rank - 1 < rank by omega)) hscale
    have hsplit : below rank exponent * (2 * unit * 10 ^ exponent.toNat) +
        2 * unitsOfRank rank * 10 ^ (-exponent).toNat % (2 * unit * 10 ^ exponent.toNat) =
        2 * (unitsOfRank rank * 10 ^ (-exponent).toNat) := by
      rw [← Nat.mul_assoc 2 (unitsOfRank rank)]
      exact Nat.div_add_mod' _ _
    have hrest := Nat.mod_lt (2 * unitsOfRank rank * 10 ^ (-exponent).toNat) hstep
    by_cases hlow : (unitsOfRank (rank - 1) + unitsOfRank rank) * 10 ^ (-exponent).toNat <
        below rank exponent * (2 * unit * 10 ^ exponent.toNat)
    · refine absurd (roundsTo_of_lt hlow ?_) hbelow
      rw [Nat.add_mul]
      omega
    · have hnext : (below rank exponent + 1) * (2 * unit * 10 ^ exponent.toNat) =
          below rank exponent * (2 * unit * 10 ^ exponent.toNat) +
            2 * unit * 10 ^ exponent.toNat := Nat.succ_mul _ _
      rw [Nat.add_mul] at hlow
      refine absurd (roundsTo_of_lt ?_ ?_) habove
      · rw [hnext, Nat.add_mul]
        omega
      · rw [hnext, Nat.add_mul]
        omega

private theorem search_roundsTo {fuel : Nat} {exponent : Int}
    (h : ∃ j < fuel, ∃ digits, onGrid tie rank (exponent - j) = some digits) :
    (search tie rank fuel exponent).RoundsTo rank := by
  induction fuel generalizing exponent with
  | zero =>
    obtain ⟨j, hj, -⟩ := h
    omega
  | succ fuel ih =>
    have hspec := onGrid_spec tie rank exponent
    rw [search]
    cases hgrid : onGrid tie rank exponent with
    | some digits =>
      rw [hgrid] at hspec
      exact (roundsTo_trim 20).mpr hspec
    | none =>
      obtain ⟨j, hj, digits, hdigits⟩ := h
      obtain ⟨k, rfl⟩ : ∃ k, j = k + 1 := by
        refine ⟨j - 1, (Nat.sub_add_cancel (Nat.pos_of_ne_zero ?_)).symm⟩
        rintro rfl
        rw [Int.natCast_zero, Int.sub_zero, hgrid] at hdigits
        cases hdigits
      refine ih ⟨k, by omega, digits, ?_⟩
      rw [← hdigits]
      congr 1
      omega

private theorem leadingExponent_le {units : Nat} (h : 0 < units) :
    unit * 10 ^ (leadingExponent units).toNat ≤ units * 10 ^ (-leadingExponent units).toNat := by
  unfold leadingExponent
  split
  · next hwhole =>
    have hpos : 0 < units / unit := Nat.div_pos hwhole (by decide +kernel)
    obtain ⟨k, hk⟩ : ∃ k, length (units / unit) = k + 1 :=
      ⟨length (units / unit) - 1, (Nat.sub_add_cancel Nat.length_toDigits_pos).symm⟩
    have hpower : 10 ^ k ≤ units / unit := by
      by_cases hzero : k = 0
      · rw [hzero]
        exact hpos
      · by_contra hlt
        have hlength := (Nat.length_toDigits_le_iff (b := 10) (n := units / unit) (by decide)
          (Nat.pos_of_ne_zero hzero)).mpr (Nat.not_le.mp hlt)
        unfold length at hk
        omega
    have hup : ((length (units / unit) : Int) - 1).toNat = k := by omega
    have hdown : (-((length (units / unit) : Int) - 1)).toNat = 0 := by omega
    rw [hup, hdown, Nat.pow_zero, Nat.mul_one, Nat.mul_comm]
    exact (Nat.le_div_iff_mul_le (by decide +kernel)).mp hpower
  · have hlength := (Nat.length_toDigits_le_iff (b := 10) (n := unit / units) (by decide)
      Nat.length_toDigits_pos).mp (Nat.le_refl _)
    have hup : (-(length (unit / units) : Int)).toNat = 0 := by omega
    have hdown : (-(-(length (unit / units) : Int))).toNat = length (unit / units) := by omega
    rw [hup, hdown, Nat.pow_zero, Nat.mul_one, Nat.mul_comm]
    exact ((Nat.div_lt_iff_lt_mul h).mp hlength).le

private theorem gap_unitsOfRank (rank : Nat) :
    unitsOfRank rank + unitsOfRank rank * 2 ^ 53 ≤ unitsOfRank (rank + 1) * 2 ^ 53 := by
  by_cases hsmall : rank < 2 ^ 53
  · have hnext := strictMono_unitsOfRank (Nat.lt_add_one rank)
    rw [unitsOfRank_of_lt hsmall] at hnext ⊢
    omega
  · obtain ⟨shift, digits, rfl, hshift, hlow, hhigh⟩ : ∃ shift digits,
        rank = shift * 2 ^ 52 + digits ∧ 1 ≤ shift ∧ 2 ^ 52 ≤ digits ∧ digits < 2 ^ 53 :=
      ⟨rank / 2 ^ 52 - 1, rank % 2 ^ 52 + 2 ^ 52, by omega, by omega, by omega, by omega⟩
    rw [Nat.add_assoc, unitsOfRank_normal hshift hlow (by omega),
      unitsOfRank_normal hshift (by omega) (by omega), Nat.succ_mul]
    have hdigits := Nat.mul_le_mul_right (2 ^ shift) hhigh.le
    omega

private theorem eighteenth_le {units : Nat} (h : 0 < units) :
    10 ^ 17 * (unit * 10 ^ (leadingExponent units - 17).toNat) ≤
      units * 10 ^ (-(leadingExponent units - 17)).toNat := by
  have hleading := leadingExponent_le h
  generalize leadingExponent units = leading at *
  by_cases hlarge : 17 ≤ leading
  · have hup : leading.toNat = 17 + (leading - 17).toNat := by omega
    have hdown : (-leading).toNat = 0 := by omega
    have hdown' : (-(leading - 17)).toNat = 0 := by omega
    rw [hup, hdown, Nat.pow_add] at hleading
    rw [hdown', Nat.mul_left_comm]
    exact hleading
  · have hup : (leading - 17).toNat = 0 := by omega
    have hsum : (-(leading - 17)).toNat = (-leading).toNat + (17 - leading.toNat) := by omega
    have hseventeen : 17 = leading.toNat + (17 - leading.toNat) := by omega
    rw [hup, hsum, Nat.pow_zero, Nat.mul_one, Nat.mul_comm, Nat.pow_add 10 (-leading).toNat,
      ← Nat.mul_assoc]
    calc unit * 10 ^ 17 = unit * 10 ^ leading.toNat * 10 ^ (17 - leading.toNat) := by
          rw [Nat.mul_assoc, ← Nat.pow_add, ← hseventeen]
      _ ≤ units * 10 ^ (-leading).toNat * 10 ^ (17 - leading.toNat) :=
          Nat.mul_le_mul_right _ hleading

theorem shortest_roundsTo (tie : Tie) (rank : Nat) : (shortest tie rank).RoundsTo rank := by
  unfold shortest
  split
  · next hzero =>
    subst hzero
    decide +kernel
  · next hrank =>
    have hpos : 0 < unitsOfRank rank :=
      Nat.lt_of_le_of_lt (Nat.zero_le _) (strictMono_unitsOfRank (Nat.pos_of_ne_zero hrank))
    refine search_roundsTo ⟨17, by decide, exists_onGrid (Nat.pos_of_ne_zero hrank) ?_⟩
    have hplace := eighteenth_le hpos
    generalize leadingExponent (unitsOfRank rank) - (17 : Nat) = exponent at *
    have hgap := Nat.mul_le_mul_right (10 ^ (-exponent).toNat) (gap_unitsOfRank rank)
    rw [Nat.add_mul, Nat.mul_right_comm, Nat.mul_right_comm (unitsOfRank (rank + 1))] at hgap
    rw [Nat.mul_assoc 2]
    omega

/-! ### Reading -/

private theorem exists_unit : ∃ place ≤ 1074, unit = 2 ^ place := by
  unfold unit
  generalize 1074 = place
  exact ⟨place, Nat.le_refl _, Nat.one_shiftLeft _⟩

private theorem unit_pos : 0 < unit := by
  obtain ⟨place, -, hunit⟩ := exists_unit
  exact hunit ▸ Nat.two_pow_pos place

private theorem two_pow_le_limit {k : Nat} (h : k ≤ 53 + 2045) : 2 ^ k ≤ limit := by
  rw [limit_eq]
  generalize 53 + 2045 = top at *
  exact Nat.pow_le_pow_right (by decide) h

private theorem magnitude_nearest (negative : Bool) (n d : Nat) :
    (nearest negative n d).magnitude = unitsOfRank (nearestRank n d) := rfl

private theorem unit_le_tenPow (n : Nat) : unit ≤ (tenPow n).magnitude := by
  obtain ⟨place, hplace, hunit⟩ := exists_unit
  have hone : 2 ^ place ≤ Nat.pow 10 n * 2 ^ place :=
    Nat.le_mul_of_pos_left _ (Nat.pow_pos (by decide))
  rw [tenPow, magnitude_nearest, unitsOfRank_nearestRank, hunit]
  exact Nat.le_min.mpr ⟨two_pow_le_rounded hone, two_pow_le_limit (by omega)⟩

private theorem rank_scaleDown_le (x : Double) (n : Nat) : (scaleDown x n).rank ≤ x.rank := by
  have hdiv : ∀ (x : Double) (k : Nat), (x.div (tenPow k)).rank ≤ x.rank := by
    intro x k
    have hone := unit_le_tenPow k
    exact nearestRank_le_of_le (Nat.lt_of_lt_of_le unit_pos hone) (Nat.mul_le_mul_left _ hone)
  induction n using Nat.strongRecOn generalizing x with
  | _ n ih =>
    rw [scaleDown]
    split
    · split
      · exact Nat.le_refl _
      · exact (ih (n - 308) (by omega) _).trans (hdiv x 308)
    · exact hdiv x n

theorem isInfinite_eq_false_iff {x : Double} : x.isInfinite = false ↔ x.rank < infinityRank := by
  have hle := x.rank_le
  rw [isInfinite, beq_eq_false_iff_ne]
  omega

theorem rank_ofInt_lt {n : Int} (h : n.natAbs < 2 ^ 64) : (ofInt n).rank < infinityRank := by
  obtain ⟨place, hplace, hunit⟩ := exists_unit
  have hunits : unitsOfRank ((12 + place) * 2 ^ 52 + 2 ^ 52) = 2 ^ 64 * unit := by
    rw [unitsOfRank_normal (by omega) (by omega) (by omega), hunit, ← Nat.pow_add, ← Nat.pow_add,
      show 52 + (12 + place) = 64 + place by omega]
  have hbound : n.natAbs * unit ≤ unitsOfRank ((12 + place) * 2 ^ 52 + 2 ^ 52) * 1 := by
    rw [hunits, Nat.mul_one]
    exact Nat.mul_le_mul_right unit h.le
  have hrank : (ofInt n).rank ≤ (12 + place) * 2 ^ 52 + 2 ^ 52 :=
    nearestRank_le_of_le Nat.one_pos hbound
  have hlimit : (12 + place) * 2 ^ 52 + 2 ^ 52 < infinityRank := by
    unfold infinityRank
    omega
  exact Nat.lt_of_le_of_lt hrank hlimit

theorem isInfinite_toDouble? {x : Double} (hdigits : d.digits < 2 ^ 64)
    (h : toDouble? d = some x) : x.isInfinite = false := by
  have hsignificand := rank_ofInt_lt (n := d.digits) (by simpa using hdigits)
  unfold toDouble? at h
  dsimp only at h
  split_ifs at h with hdown hzero hover hinfinite
  · rw [← Option.some.inj h, isInfinite_eq_false_iff]
    exact Nat.lt_of_le_of_lt (rank_scaleDown_le _ _) hsignificand
  · rw [← Option.some.inj h, isInfinite_eq_false_iff]
    exact hsignificand
  · rw [← Option.some.inj h]
    simpa using hinfinite

private theorem magnitude_exact {n k : Nat} (hk : k ≤ 2045) (hmultiple : 2 ^ k ∣ n)
    (hn : n ≤ 2 ^ (53 + k)) (negative : Bool) : (nearest negative n 1).magnitude = n := by
  rw [magnitude_nearest, unitsOfRank_nearestRank, rounded_of_multiple hmultiple hn]
  exact Nat.min_eq_left (hn.trans (two_pow_le_limit (by omega)))

private theorem magnitude_ofInt {n : Nat} (h : n < 2 ^ 53) : (ofInt n).magnitude = n * unit := by
  obtain ⟨place, hplace, hunit⟩ := exists_unit
  refine magnitude_exact (k := place) (by omega) (hunit ▸ Nat.dvd_mul_left _ _) ?_ _
  rw [Nat.pow_add, hunit]
  exact Nat.mul_le_mul_right _ h.le

private theorem magnitude_tenPow {n : Nat} (h : n ≤ 22) : (tenPow n).magnitude = 10 ^ n * unit := by
  obtain ⟨place, hplace, hunit⟩ := exists_unit
  have hpower : Nat.pow 10 n * unit = 5 ^ n * 2 ^ (n + place) := by
    rw [Nat.pow_eq, hunit, Nat.pow_add 2 n, ← Nat.mul_assoc, ← Nat.mul_pow]
  have hfive : 5 ^ n ≤ 2 ^ 53 := (Nat.pow_le_pow_right (by decide) h).trans (by decide)
  refine magnitude_exact (k := n + place) (by omega) (hpower ▸ Nat.dvd_mul_left _ _) ?_ false
  rw [hpower, Nat.pow_add 2 53]
  exact Nat.mul_le_mul_right _ hfive

theorem nearest_of_roundsTo {n m : Nat} (h : d.RoundsTo rank) (hrank : rank < infinityRank)
    (hm : 0 < m) (hcross : d.units * m = n * d.scale) (negative : Bool) :
    nearest negative n m = ⟨negative, rank, hrank.le⟩ := by
  have hrounds := (rounds_congr d.scale_pos hm hcross).mp h
  have hnearest : nearestRank n m = rank := by
    rw [nearestRank_of_rounds hm hrounds]
    exact Nat.min_eq_left hrank.le
  simp only [nearest, hnearest]

theorem toDouble?_of_roundsTo (hdigits : d.digits < 2 ^ 53) (hlow : -22 ≤ d.exponent)
    (hhigh : d.exponent ≤ 22) (h : d.RoundsTo rank) (hrank : rank < infinityRank) :
    toDouble? d = some ⟨false, rank, hrank.le⟩ := by
  have hsign : (ofInt d.digits).negative = false := by simp [ofInt, nearest]
  have hpower : ∀ n, (tenPow n).negative = false := fun n => rfl
  have hmagnitude := magnitude_ofInt hdigits
  unfold toDouble?
  dsimp only
  split
  · next hneg =>
    have hten := magnitude_tenPow (n := (-d.exponent).toNat) (by omega)
    have hnone : d.exponent.toNat = 0 := by omega
    rw [scaleDown, dif_neg (by omega), div, hsign, hpower, hmagnitude, hten]
    refine congrArg some (nearest_of_roundsTo h hrank ?_ ?_ false)
    · exact Nat.mul_pos (Nat.pow_pos (by decide)) unit_pos
    · rw [units, scale, hnone]
      ring
  · next hpos =>
    have hone : (-d.exponent).toNat = 0 := by omega
    split
    · next hzero =>
      rw [hzero]
      refine congrArg some (nearest_of_roundsTo h hrank Nat.one_pos ?_ false)
      rw [units, hzero]
      simp
    · have hten := magnitude_tenPow (n := d.exponent.toNat) (by omega)
      have hproduct : (ofInt d.digits).mul (tenPow d.exponent.toNat) =
          ⟨false, rank, hrank.le⟩ := by
        rw [mul, hsign, hpower, hmagnitude, hten]
        refine nearest_of_roundsTo h hrank unit_pos ?_ false
        rw [units, scale, hone]
        ring
      have hfinite : isInfinite ⟨false, rank, hrank.le⟩ = false :=
        isInfinite_eq_false_iff.mpr hrank
      rw [if_neg (by omega), hproduct, hfinite]
      rfl

end Decimal

end ConceptSync
