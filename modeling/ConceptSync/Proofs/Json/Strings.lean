import Mathlib.Tactic.SplitIfs
import ConceptSync.Json.Printer
import ConceptSync.Json.Reader

set_option autoImplicit false
set_option relaxedAutoImplicit false

/-!
Strings in documents. Every character is written so that it is read back as itself, whatever stands
around it, so every string is.
-/

namespace ConceptSync

namespace Json

private theorem hexValue_hexDigit (n : Nat) : hexValue? (hexDigit n) = some (n % 16) := by
  have hdigit : ∀ d < 16, hexValue? ((Nat.toDigits 16 d).headD '0') = some d := by decide +kernel
  exact hdigit (n % 16) (Nat.mod_lt n (by decide))

private theorem readEscape_unit {c : Char} (h : c.toNat < 32) (rest : List Char) :
    readEscape ('u' :: '0' :: '0' :: hexDigit (c.toNat / 16) :: hexDigit c.toNat :: rest) =
      some (c, rest) := by
  have hzero : hexValue? '0' = some 0 := rfl
  have hunit : ((0 * 16 + 0) * 16 + c.toNat / 16 % 16) * 16 + c.toNat % 16 = c.toNat := by omega
  have hhigh : ¬(0xDC00 ≤ c.toNat ∧ c.toNat ≤ 0xDFFF) := by omega
  have hlow : ¬(0xD800 ≤ c.toNat ∧ c.toNat ≤ 0xDBFF) := by omega
  simp only [readEscape, readCodePoint, readUnit, hzero, hexValue_hexDigit, Option.bind_eq_bind,
    Option.bind_some, hunit, hhigh, hlow, if_false, Char.ofNat_toNat]

private theorem readChars_escapeChar (fuel : Nat) (done : List Char) (c : Char)
    (rest : List Char) :
    readChars (fuel + 1) done (escapeChar c ++ rest) = readChars fuel (c :: done) rest := by
  unfold escapeChar
  split_ifs with hquote hslash hback hform hline hreturn htab hcontrol
  · rw [hquote]
    rfl
  · rw [hslash]
    rfl
  · rw [hback]
    rfl
  · rw [hform]
    rfl
  · rw [hline]
    rfl
  · rw [hreturn]
    rfl
  · rw [htab]
    rfl
  · simp [readChars, readEscape_unit hcontrol]
  · simp [readChars, hquote, hslash, hcontrol]

private theorem readChars_escaped {fuel : Nat} {done chars : List Char} (rest : List Char)
    (h : chars.length < fuel) :
    readChars fuel done (chars.flatMap escapeChar ++ '"' :: rest) =
      some (chars.reverse ++ done, rest) := by
  induction chars generalizing fuel done with
  | nil =>
    obtain ⟨fuel, rfl⟩ : ∃ n, fuel = n + 1 := ⟨fuel - 1, by simp at h; omega⟩
    simp [readChars]
  | cons c chars ih =>
    obtain ⟨fuel, rfl⟩ : ∃ n, fuel = n + 1 := ⟨fuel - 1, by simp at h; omega⟩
    rw [List.flatMap_cons, List.append_assoc, readChars_escapeChar,
      ih (by simpa using h), List.reverse_cons, List.append_assoc, List.singleton_append]

private theorem length_le_flatMap_escapeChar (chars : List Char) :
    chars.length ≤ (chars.flatMap escapeChar).length := by
  have hsome : ∀ c, 1 ≤ (escapeChar c).length := by
    intro c
    unfold escapeChar
    split_ifs <;> simp
  induction chars with
  | nil => simp
  | cons c chars ih =>
    have hc := hsome c
    rw [List.flatMap_cons, List.length_append, List.length_cons]
    omega

theorem toList_quote (s : String) :
    (quote s).toList = '"' :: (s.toList.flatMap escapeChar ++ ['"']) :=
  String.toList_ofList

theorem readText_escaped (s : String) (rest : List Char) :
    readText (s.toList.flatMap escapeChar ++ '"' :: rest) = some (s, rest) := by
  have hlength := length_le_flatMap_escapeChar s.toList
  rw [readText, readChars_escaped rest (by rw [List.length_append, List.length_cons]; omega)]
  simp

end Json

end ConceptSync
