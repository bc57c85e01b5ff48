import Mathlib.Data.List.Basic

set_option autoImplicit false
set_option relaxedAutoImplicit false

/-!
Runs of decimal digits in front of something else, and the numbers they stand for.
-/

namespace ConceptSync

namespace Text

def AreDigits (cs : List Char) : Prop := ∀ c ∈ cs, c.isDigit = true

def EndsDigits (cs : List Char) : Prop := ∀ c ∈ cs.head?, c.isDigit = false

variable {digits rest : List Char}

theorem EndsDigits.nil : EndsDigits [] := by
  simp [EndsDigits]

theorem EndsDigits.cons {c : Char} (h : c.isDigit = false) : EndsDigits (c :: rest) := by
  simpa [EndsDigits] using h

theorem takeWhile_digits (h : AreDigits digits) (hrest : EndsDigits rest) :
    (digits ++ rest).takeWhile Char.isDigit = digits := by
  have hnone : rest.takeWhile Char.isDigit = [] := by
    cases rest with
    | nil => rfl
    | cons c rest => exact List.takeWhile_cons_of_neg (by simp [hrest c rfl])
  rw [List.takeWhile_append_of_pos h, hnone, List.append_nil]

theorem dropWhile_digits (h : AreDigits digits) (hrest : EndsDigits rest) :
    (digits ++ rest).dropWhile Char.isDigit = rest := by
  rw [List.dropWhile_append_of_pos h]
  cases rest with
  | nil => rfl
  | cons c rest => exact List.dropWhile_cons_of_neg (by simp [hrest c rfl])

theorem areDigits_append {more : List Char} :
    AreDigits (digits ++ more) ↔ AreDigits digits ∧ AreDigits more := by
  simp only [AreDigits, List.mem_append, or_imp, forall_and]

theorem areDigits_zeros (n : Nat) : AreDigits (List.replicate n '0') := by
  intro c hc
  rw [List.eq_of_mem_replicate hc]
  rfl

theorem areDigits_toDigits (n : Nat) : AreDigits (Nat.toDigits 10 n) := fun _ hc =>
  Nat.isDigit_of_mem_toDigits (by decide) (by decide) hc

theorem toList_toString (n : Nat) : (toString n).toList = Nat.toDigits 10 n := by
  rw [Nat.toString_eq_repr, Nat.toList_repr]

theorem head_toDigits_ne_zero {n : Nat} (h : 0 < n) : (Nat.toDigits 10 n).head? ≠ some '0' := by
  induction n using Nat.strongRecOn with
  | _ n ih =>
    by_cases hsmall : n < 10
    · rw [Nat.toDigits_of_lt_base hsmall]
      simp only [List.head?_cons, ne_eq, Option.some.injEq, Nat.digitChar_eq_zero]
      omega
    · rw [Nat.toDigits_of_base_le (by decide) (by omega),
        List.head?_append_of_ne_nil _ Nat.toDigits_ne_nil]
      exact ih (n / 10) (by omega) (by omega)

theorem foldl_digits (digits : List Char) (n : Nat) :
    digits.foldl (fun n c => n * 10 + (c.toNat - '0'.toNat)) n = Nat.ofDigitChars 10 digits n := by
  rw [Nat.ofDigitChars_eq_foldl]
  congr
  funext n c
  rw [Nat.mul_comm]

theorem ofDigitChars_le (digits : List Char) (n : Nat) : n ≤ Nat.ofDigitChars 10 digits n := by
  rw [Nat.ofDigitChars_eq_ofDigitChars_zero]
  have hpos : 0 < 10 ^ digits.length := Nat.pow_pos (by decide)
  exact Nat.le_trans (Nat.le_mul_of_pos_left n hpos) (Nat.le_add_right _ _)

end Text

end ConceptSync
