import ConceptSync.Proofs.Number.Rounding

set_option autoImplicit false
set_option relaxedAutoImplicit false

/-!
Rounding of quotients. The rank nearest to a quotient of units is one of the two ranks whose
magnitudes enclose it, so it is the rank in whose interval the quotient lies: from halfway to the
rank below up to halfway to the rank above, the ends included if the rank is even.
-/

namespace ConceptSync

namespace Double

def Rounds (n d rank : Nat) : Prop :=
  if rank % 2 = 0 then
    (unitsOfRank (rank - 1) + unitsOfRank rank) * d ≤ 2 * n ∧
      2 * n ≤ (unitsOfRank rank + unitsOfRank (rank + 1)) * d
  else
    (unitsOfRank (rank - 1) + unitsOfRank rank) * d < 2 * n ∧
      2 * n < (unitsOfRank rank + unitsOfRank (rank + 1)) * d

variable {n d rank : Nat}

private theorem unitsOfRank_whole (q : Nat) :
    unitsOfRank (excess q * 2 ^ 52 + q / 2 ^ excess q) = q / 2 ^ excess q * 2 ^ excess q ∧
      unitsOfRank (excess q * 2 ^ 52 + q / 2 ^ excess q + 1) =
        (q / 2 ^ excess q + 1) * 2 ^ excess q := by
  by_cases hsmall : q < 2 ^ 53
  · rw [excess_of_lt hsmall]
    simp only [Nat.pow_zero, Nat.div_one, Nat.mul_one, Nat.zero_mul, Nat.zero_add]
    refine ⟨unitsOfRank_of_lt hsmall, ?_⟩
    by_cases hnext : q + 1 < 2 ^ 53
    · exact unitsOfRank_of_lt hnext
    · have hlast : q + 1 = 1 * 2 ^ 52 + 2 ^ 52 := by omega
      rw [hlast, unitsOfRank_normal (by omega) (by omega) (by omega)]
      omega
  · obtain ⟨hlow, hhigh, _, hexcess⟩ := two_pow_excess_le (Nat.not_lt.mp hsmall)
    have hpos := Nat.two_pow_pos (excess q)
    have hfirst : 2 ^ 52 ≤ q / 2 ^ excess q := (Nat.le_div_iff_mul_le hpos).mpr hlow
    have hlast : q / 2 ^ excess q < 2 ^ 53 := (Nat.div_lt_iff_lt_mul hpos).mpr hhigh
    refine ⟨unitsOfRank_normal hexcess hfirst (by omega), ?_⟩
    rw [Nat.add_assoc]
    exact unitsOfRank_normal hexcess (by omega) (by omega)

private theorem nearestRank_cases (n : Nat) (hd : 0 < d) : ∃ r,
    unitsOfRank r * d ≤ n ∧ n < unitsOfRank (r + 1) * d ∧
      nearestRank n d = min
        (if (unitsOfRank r + unitsOfRank (r + 1)) * d < 2 * n ∨
          ((unitsOfRank r + unitsOfRank (r + 1)) * d = 2 * n ∧ r % 2 = 1) then r + 1 else r)
        infinityRank := by
  obtain ⟨hhere, hnext⟩ := unitsOfRank_whole (n / d)
  generalize hshift : excess (n / d) = shift at hhere hnext
  have hwhole : n / d / 2 ^ shift = n / (d * 2 ^ shift) := Nat.div_div_eq_div_mul ..
  rw [hwhole] at hhere hnext
  have hsplit := Nat.div_add_mod n (d * 2 ^ shift)
  have hrest := Nat.mod_lt n (Nat.mul_pos hd (Nat.two_pow_pos shift))
  have hrank : nearestRank n d = min (shift * 2 ^ 52 +
      if d * 2 ^ shift < 2 * (n % (d * 2 ^ shift)) ∨
        (2 * (n % (d * 2 ^ shift)) = d * 2 ^ shift ∧ n / (d * 2 ^ shift) % 2 = 1)
      then n / (d * 2 ^ shift) + 1 else n / (d * 2 ^ shift)) infinityRank := by
    simp only [nearestRank, Nat.shiftLeft_eq, ← hshift, excess]
  generalize n / (d * 2 ^ shift) = whole at *
  generalize n % (d * 2 ^ shift) = rest at *
  have hbelow : unitsOfRank (shift * 2 ^ 52 + whole) * d = d * 2 ^ shift * whole := by
    rw [hhere]
    ring
  have habove : unitsOfRank (shift * 2 ^ 52 + whole + 1) * d =
      d * 2 ^ shift * whole + d * 2 ^ shift := by
    rw [hnext]
    ring
  refine ⟨shift * 2 ^ 52 + whole, by omega, by omega, ?_⟩
  rw [hrank, Nat.add_mul, hbelow, habove]
  congr 1
  split <;> split <;> omega

theorem nearestRank_of_rounds (hd : 0 < d) (h : Rounds n d rank) :
    nearestRank n d = min rank infinityRank := by
  obtain ⟨r, hbelow, habove, hrank⟩ := nearestRank_cases n hd
  have hmono := strictMono_unitsOfRank
  obtain ⟨hlow, hhigh⟩ : (unitsOfRank (rank - 1) + unitsOfRank rank) * d ≤ 2 * n ∧
      2 * n ≤ (unitsOfRank rank + unitsOfRank (rank + 1)) * d := by
    unfold Rounds at h
    split at h <;> omega
  have hle : rank ≤ r + 1 := by
    by_contra hgt
    have hfirst := hmono.monotone (show r + 1 ≤ rank - 1 by omega)
    have hsecond := hmono (show r + 1 < rank by omega)
    have hproduct := Nat.mul_lt_mul_of_pos_right (Nat.add_lt_add_of_le_of_lt hfirst hsecond) hd
    rw [Nat.add_mul] at hproduct
    omega
  have hge : r ≤ rank := by
    by_contra hlt
    have hfirst := hmono (show rank < r by omega)
    have hsecond := hmono.monotone (show rank + 1 ≤ r by omega)
    have hproduct := Nat.mul_lt_mul_of_pos_right (Nat.add_lt_add_of_lt_of_le hfirst hsecond) hd
    rw [Nat.add_mul (unitsOfRank r)] at hproduct
    omega
  rw [hrank]
  congr 1
  unfold Rounds at h
  obtain heq | heq : rank = r ∨ rank = r + 1 := by omega
  · subst heq
    split at h <;> split <;> omega
  · subst heq
    rw [Nat.add_sub_cancel] at h
    split at h <;> split <;> omega

theorem nearestRank_le_of_le (hd : 0 < d) (h : n ≤ unitsOfRank rank * d) :
    nearestRank n d ≤ rank := by
  obtain ⟨r, hbelow, habove, hrank⟩ := nearestRank_cases n hd
  have hmono := strictMono_unitsOfRank
  have hle : r ≤ rank := by
    rw [← hmono.le_iff_le]
    exact Nat.le_of_mul_le_mul_right (hbelow.trans h) hd
  rw [hrank]
  refine (Nat.min_le_left _ _).trans ?_
  rcases Nat.lt_or_eq_of_le hle with hlt | heq
  · split <;> omega
  · have hnext := Nat.mul_lt_mul_of_pos_right (hmono (Nat.lt_succ_self r)) hd
    rw [heq] at hbelow habove hnext ⊢
    rw [Nat.add_mul]
    split <;> omega

end Double

end ConceptSync
