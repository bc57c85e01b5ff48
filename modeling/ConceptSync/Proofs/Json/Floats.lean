import Mathlib.Tactic.SplitIfs
import ConceptSync.Proofs.Json.Numerals
import ConceptSync.Proofs.Number.Decimals

set_option autoImplicit false
set_option relaxedAutoImplicit false

/-!
Floating point numbers that are written and read again. What is written for a number always lies
where everything is rounded to it, so a reader that rounds once gives every number back. A reader that
rounds the digits first and scales them afterwards gives back the numbers whose digits and whose power
of ten are exact, but not all others.
-/

namespace ConceptSync

open Json Decimal

namespace Json

private theorem accumulate_lt {n : Nat} (h : n < 2 ^ 64) (digits : List Char) :
    (accumulate n digits).1 < 2 ^ 64 := by
  induction digits generalizing n with
  | nil => exact h
  | cons c digits ih =>
    rw [accumulate]
    split
    · next hnext => exact ih hnext
    · exact h

private theorem storable_assembleNumber {negative : Bool} {whole fraction : List Char}
    {exponent : Option Int} {n : Number}
    (h : assembleNumber negative whole fraction exponent = some n) : n.Storable := by
  have hwhole := accumulate_lt (n := 0) (by decide) whole
  have hall := accumulate_lt hwhole fraction
  have hinteger : (Double.ofInt (accumulate 0 whole).1).isInfinite = false :=
    Decimal.isInfinite_eq_false_iff.mpr (Decimal.rank_ofInt_lt hwhole)
  unfold assembleNumber at h
  dsimp only at h
  split at h
  · split at h
    · split at h
      · rw [← Option.some.inj h, Number.Storable]
        omega
      · rw [← Option.some.inj h]
        exact hinteger
    · rw [← Option.some.inj h, Number.Storable]
      omega
  · obtain ⟨x, hx, rfl⟩ := Option.map_eq_some_iff.mp h
    have hfinite := Decimal.isInfinite_toDouble? hall hx
    cases negative <;> exact hfinite

theorem sound_assembleNumber : Assembly.Sound assembleNumber :=
  ⟨fun _ _ => rfl, fun _ _ _ _ _ h => storable_assembleNumber h⟩

/-- The number nearest to what all digits and the exponent say. Whole numbers without an exponent are
integers where they fit. -/
def assembleNearest : Assembly := fun negative whole fraction exponent =>
  if fraction.isEmpty && exponent.isNone then assembleNumber negative whole [] none
  else
    let d : Decimal :=
      ⟨Nat.ofDigitChars 10 (whole ++ fraction) 0, exponent.getD 0 - fraction.length⟩
    let x := Double.nearest negative d.units d.scale
    if x.isInfinite then none else some (.float x)

theorem sound_assembleNearest : Assembly.Sound assembleNearest := by
  constructor
  · intro negative digits
    rw [assembleNearest, if_pos (by rfl)]
  · intro negative whole fraction exponent n h
    simp only [assembleNearest] at h
    by_cases hwhole : (fraction.isEmpty && exponent.isNone) = true
    · rw [if_pos hwhole] at h
      exact storable_assembleNumber h
    · rw [if_neg hwhole] at h
      generalize Double.nearest negative _ _ = x at h
      obtain ⟨hfinite, hx⟩ := Option.ite_none_left_eq_some.mp h
      rw [← Option.some.inj hx, Number.Storable]
      exact (Bool.not_eq_true _).mp hfinite

end Json

namespace Double

def IsPlain (x : Double) : Prop :=
  let d := shortest .even x.rank
  d.digits * 10 ^ (d.exponent + 1).toNat < 2 ^ 53 ∧ -22 ≤ d.exponent

instance (x : Double) : Decidable x.IsPlain :=
  inferInstanceAs (Decidable (_ ∧ _))

variable {x : Double}

private theorem digits_shortest_pos (h : x.rank ≠ 0) : 0 < (shortest .even x.rank).digits := by
  have hrounds := shortest_roundsTo .even x.rank
  by_contra hzero
  have hunits : (shortest .even x.rank).units = 0 := by
    rw [units, Nat.eq_zero_of_not_pos hzero, Nat.zero_mul, Nat.zero_mul]
  have hpos : 0 < unitsOfRank x.rank :=
    Nat.lt_of_le_of_lt (Nat.zero_le _) (strictMono_unitsOfRank (Nat.pos_of_ne_zero h))
  have hscale := Nat.mul_pos (Nat.add_pos_right (unitsOfRank (x.rank - 1)) hpos)
    (scale_pos (shortest .even x.rank))
  unfold RoundsTo Rounds at hrounds
  split at hrounds <;> omega

private theorem exists_numeral_reread (x : Double) : ∃ (n : Numeral) (zeros : Nat),
    (∀ assemble, (Number.float x).reread? assemble = n.number? assemble x.negative) ∧
      n.Denotes (shortest .even x.rank) zeros := by
  obtain ⟨n, zeros, htext, hdenotes⟩ := exists_numeral_write x
  exact ⟨n, zeros, fun _ => Number.reread?_of_chars htext, hdenotes⟩

private theorem isEmpty_of_denotes {n : Numeral} {d : Decimal} {zeros : Nat}
    (h : n.Denotes d zeros) :
    (n.fraction.isEmpty && n.exponentValue.isNone) = false := by
  rcases h.notWhole with hne | hne
  · simp [hne]
  · simp [Numeral.exponentValue, Option.isNone_eq_false_iff, Option.isSome_iff_ne_none.mpr hne]

private theorem number?_of_lt {n : Numeral} {d : Decimal} {zeros : Nat} (h : n.Denotes d zeros)
    (hreadable : 0 < d.digits ∨ d.exponent ≤ 0) (hlt : n.significand < 2 ^ 64) (negative : Bool) :
    n.number? assembleNumber negative = (toDouble? ⟨n.significand, n.shift⟩).map fun x =>
      .float (if negative then x.neg else x) := by
  have hall : Nat.ofDigitChars 10 n.fraction (Nat.ofDigitChars 10 n.whole 0) = n.significand :=
    (Nat.ofDigitChars_append 0).symm
  have hfraction := Number.accumulate_of_lt (Nat.ofDigitChars 10 n.whole 0) n.fraction (by omega)
  have hwhole := Number.accumulate_of_lt 0 n.whole
    (Nat.lt_of_le_of_lt (Text.ofDigitChars_le n.fraction _) (by omega))
  have hparts := isEmpty_of_denotes h
  rw [Numeral.number?, if_neg (h.readable hreadable), assembleNumber, hwhole]
  simp only [List.isEmpty_nil, Bool.true_and, hparts, Bool.false_eq_true, if_false, hfraction, hall]
  congr 3
  simp [Numeral.shift]
  omega

private theorem readable_shortest (x : Double) :
    0 < (shortest .even x.rank).digits ∨ (shortest .even x.rank).exponent ≤ 0 := by
  by_cases hzero : x.rank = 0
  · rw [hzero, shortest, if_pos rfl]
    decide
  · exact .inl (digits_shortest_pos hzero)

private theorem IsPlain.exponent_le (h : x.IsPlain) : (shortest .even x.rank).exponent ≤ 22 := by
  by_cases hzero : x.rank = 0
  · rw [hzero, shortest, if_pos rfl]
    decide
  · have hdigits := digits_shortest_pos hzero
    obtain ⟨hlt, -⟩ := h
    by_contra hgt
    have hpower : 10 ^ 23 ≤ 10 ^ ((shortest .even x.rank).exponent + 1).toNat :=
      Nat.pow_le_pow_right (by decide) (by omega)
    have hproduct := Nat.mul_le_mul hdigits hpower
    omega

/-- A reader that rounds once gives every number back. -/
theorem readsBack_nearest (hfinite : x.isInfinite = false) : x.ReadsBack assembleNearest := by
  obtain ⟨n, zeros, hreread, hdenotes⟩ := exists_numeral_reread x
  have hrounds := (roundsTo_zeros zeros).mpr (shortest_roundsTo .even x.rank)
  rw [← hdenotes.significand_eq, ← hdenotes.shift_eq] at hrounds
  have hnearest := nearest_of_roundsTo hrounds (isInfinite_eq_false_iff.mp hfinite) (scale_pos _)
    rfl x.negative
  have hassemble : assembleNearest x.negative n.whole n.fraction n.exponentValue =
      if (nearest x.negative (units ⟨n.significand, n.shift⟩)
          (scale ⟨n.significand, n.shift⟩)).isInfinite then none
      else some (.float (nearest x.negative (units ⟨n.significand, n.shift⟩)
        (scale ⟨n.significand, n.shift⟩))) := by
    rw [assembleNearest, isEmpty_of_denotes hdenotes, if_neg Bool.false_ne_true]
    rfl
  rw [ReadsBack, hreread, Numeral.number?, if_neg (hdenotes.readable (readable_shortest x)),
    hassemble, hnearest, if_neg (by simpa [isInfinite] using hfinite)]

theorem readsBack_of_isPlain (hfinite : x.isInfinite = false) (h : x.IsPlain) :
    x.ReadsBack assembleNumber := by
  obtain ⟨n, zeros, hreread, hdenotes⟩ := exists_numeral_reread x
  have hhigh := h.exponent_le
  obtain ⟨hdigits, hlow⟩ := h
  have hrounds := (roundsTo_zeros zeros).mpr (shortest_roundsTo .even x.rank)
  have hrank := isInfinite_eq_false_iff.mp hfinite
  have hzeros := hdenotes.zeros_le
  have hsignificand := hdenotes.significand_eq
  have hshift := hdenotes.shift_eq
  rw [← hsignificand, ← hshift] at hrounds
  have hlt : n.significand < 2 ^ 53 := by
    rw [hsignificand]
    exact Nat.lt_of_le_of_lt
      (Nat.mul_le_mul_left _ (Nat.pow_le_pow_right (by decide) hzeros)) hdigits
  have hread := toDouble?_of_roundsTo (d := ⟨n.significand, n.shift⟩) hlt
    (by show -22 ≤ n.shift; omega) (by show n.shift ≤ 22; omega) hrounds hrank
  rw [ReadsBack, hreread, number?_of_lt hdenotes (readable_shortest x) (hlt.trans (by decide)), hread,
    Option.map_some]
  obtain ⟨negative, rank, hle⟩ := x
  cases negative <;> rfl

private theorem reread?_of_exponent_neg {d : Decimal} (hd : shortest .even x.rank = d)
    (hexponent : d.exponent < 0) (hdigits : d.digits < 2 ^ 64) :
    (Number.float x).reread? assembleNumber =
      (toDouble? d).map fun y => .float (if x.negative then y.neg else y) := by
  obtain ⟨n, zeros, hreread, hdenotes⟩ := exists_numeral_reread x
  rw [hd] at hdenotes
  have hzeros := hdenotes.zeros_le
  obtain rfl : zeros = 0 := by omega
  have hsignificand : n.significand = d.digits := by rw [hdenotes.significand_eq]; omega
  have hshift : n.shift = d.exponent := by rw [hdenotes.shift_eq]; omega
  rw [hreread, number?_of_lt hdenotes (.inr hexponent.le) (hsignificand ▸ hdigits), hsignificand,
    hshift]

def tiny : Double := ⟨false, 0x3AF357C299A88EA7, by decide⟩

def aboveTiny : Double := ⟨false, 0x3AF357C299A88EA8, by decide⟩

theorem reread?_aboveTiny :
    (Number.float aboveTiny).reread? assembleNumber = some (.float tiny) := by
  have hread : toDouble? ⟨10000000000000001, -40⟩ = some tiny := by
    unfold toDouble?
    rw [if_pos (by decide), scaleDown, dif_neg (by decide)]
    decide +kernel
  rw [reread?_of_exponent_neg (d := ⟨10000000000000001, -40⟩) (by decide +kernel) (by decide)
    (by decide), hread]
  rfl

end Double

end ConceptSync
