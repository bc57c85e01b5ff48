import Mathlib.Tactic.SplitIfs
import ConceptSync.Json.Printer
import ConceptSync.Json.Reader
import ConceptSync.Proofs.Document
import ConceptSync.Proofs.Text.Digits

set_option autoImplicit false
set_option relaxedAutoImplicit false

/-!
Numbers in documents. What is written for a number is a numeral, and what is read from a numeral
does not depend on what follows it, so a number is read in a document as it is read alone. Integers
are read as they are. A floating point number is read from the digits and the power of ten of its
shortest numeral.
-/

namespace ConceptSync

namespace Json

open Text

/-- Whole numbers are made as they always are, and every number that is made can be stored. -/
structure Assembly.Sound (assemble : Assembly) : Prop where
  whole : ∀ negative digits, assemble negative digits [] none = assembleNumber negative digits [] none
  storable : ∀ negative whole fraction exponent n,
    assemble negative whole fraction exponent = some n → n.Storable

variable {assemble : Assembly}

def Closes (cs : List Char) : Prop := ∀ c ∈ cs.head?, c = ',' ∨ c = ']' ∨ c = '\x7d'

theorem Closes.nil : Closes [] := by
  simp [Closes]

private theorem Closes.endsDigits {cs : List Char} (h : Closes cs) : EndsDigits cs := by
  intro c hc
  rcases h c hc with rfl | rfl | rfl <;> rfl

/-- A numeral without sign: digits, the digits after a point, and the sign and digits of an
exponent. -/
structure Numeral where
  whole : List Char
  fraction : List Char
  exponent : Option (Bool × List Char)
  whole_digits : AreDigits whole
  fraction_digits : AreDigits fraction
  exponent_digits : ∀ e ∈ exponent, AreDigits e.2
  whole_ne_nil : whole ≠ []
  exponent_ne_nil : ∀ e ∈ exponent, e.2 ≠ []

namespace Numeral

def fractionChars : List Char → List Char
  | [] => []
  | digits => '.' :: digits

private theorem fractionChars_of_ne_nil {digits : List Char} (h : digits ≠ []) :
    fractionChars digits = '.' :: digits := by
  cases digits with
  | nil => exact absurd rfl h
  | cons => rfl

def exponentChars : Option (Bool × List Char) → List Char
  | none => []
  | some (negative, digits) => 'e' :: (if negative then '-' else '+') :: digits

def chars (n : Numeral) : List Char :=
  n.whole ++ (fractionChars n.fraction ++ exponentChars n.exponent)

def exponentValue (n : Numeral) : Option Int :=
  n.exponent.map fun e =>
    if e.1 then -(Nat.ofDigitChars 10 e.2 0 : Int) else Nat.ofDigitChars 10 e.2 0

def number? (n : Numeral) (assemble : Assembly) (negative : Bool) : Option Number :=
  if 1 < n.whole.length ∧ n.whole.head? = some '0' then none
  else assemble negative n.whole n.fraction n.exponentValue

private theorem endsDigits_exponentChars {rest : List Char} (h : Closes rest)
    (e : Option (Bool × List Char)) : EndsDigits (exponentChars e ++ rest) := by
  cases e with
  | none => exact h.endsDigits
  | some e => exact .cons rfl

private theorem endsDigits_fractionChars {cs : List Char} (h : EndsDigits cs)
    (fraction : List Char) :
    EndsDigits (fractionChars fraction ++ cs) := by
  cases fraction with
  | nil => exact h
  | cons c digits => exact .cons rfl

private theorem readFraction_chars {fraction cs : List Char} (hdigits : AreDigits fraction)
    (hends : EndsDigits cs) (hpoint : cs.head? ≠ some '.') :
    readFraction (fractionChars fraction ++ cs) = some (fraction, cs) := by
  cases fraction with
  | nil =>
    cases cs with
    | nil => rfl
    | cons c cs =>
      unfold fractionChars readFraction
      split
      · next heq =>
        rw [List.nil_append, List.cons.injEq] at heq
        exact absurd (by rw [heq.1]; rfl) hpoint
      · rfl
  | cons c digits =>
    have htake := takeWhile_digits hdigits hends
    have hdrop := dropWhile_digits hdigits hends
    rw [List.cons_append] at htake hdrop
    simp [fractionChars, readFraction, htake, hdrop]

private theorem readExponentDigits_chars (negative : Bool) {digits rest : List Char}
    (hdigits : AreDigits digits) (hne : digits ≠ []) (hrest : EndsDigits rest) :
    readExponentDigits negative (digits ++ rest) =
      some (some (if negative then -(Nat.ofDigitChars 10 digits 0 : Int)
        else Nat.ofDigitChars 10 digits 0), rest) := by
  have hempty : digits.isEmpty = false := by simpa using hne
  simp only [readExponentDigits, takeWhile_digits hdigits hrest, dropWhile_digits hdigits hrest,
    hempty, Bool.false_eq_true, if_false, digitValue, foldl_digits]

private theorem readExponent_chars {e : Option (Bool × List Char)} {rest : List Char}
    (hdigits : ∀ f ∈ e, AreDigits f.2) (hne : ∀ f ∈ e, f.2 ≠ []) (hrest : Closes rest) :
    readExponent (exponentChars e ++ rest) =
      some (e.map fun f =>
        if f.1 then -(Nat.ofDigitChars 10 f.2 0 : Int) else Nat.ofDigitChars 10 f.2 0, rest) := by
  cases e with
  | none =>
    cases rest with
    | nil => rfl
    | cons c rest =>
      have hmark : ¬(c = 'e' ∨ c = 'E') := by
        rcases hrest c rfl with rfl | rfl | rfl <;> decide
      simp [exponentChars, readExponent, hmark]
  | some f =>
    obtain ⟨negative, digits⟩ := f
    have hread := readExponentDigits_chars negative (hdigits _ rfl) (hne _ rfl)
      hrest.endsDigits
    cases negative <;> simpa [exponentChars, readExponent] using hread

private theorem readUnsigned_chars (n : Numeral) (negative : Bool) {rest : List Char}
    (h : Closes rest) :
    readUnsigned assemble negative (n.chars ++ rest) =
      (n.number? assemble negative).map fun m => (.number m, rest) := by
  have hexponent := endsDigits_exponentChars h n.exponent
  have hpoint : (exponentChars n.exponent ++ rest).head? ≠ some '.' := by
    cases n.exponent with
    | none =>
      intro hhead
      rcases h '.' hhead with hc | hc | hc <;> exact absurd hc (by decide)
    | some e => simp [exponentChars]
  have hafter := endsDigits_fractionChars hexponent n.fraction
  have hempty : n.whole.isEmpty = false := by simpa using n.whole_ne_nil
  rw [readUnsigned, chars, List.append_assoc, List.append_assoc,
    takeWhile_digits n.whole_digits hafter, dropWhile_digits n.whole_digits hafter,
    readFraction_chars n.fraction_digits hexponent hpoint]
  simp only [hempty, Bool.false_or, Bool.and_eq_true, decide_eq_true_eq, beq_iff_eq,
    Option.bind_eq_bind, Option.bind_some,
    readExponent_chars n.exponent_digits n.exponent_ne_nil h, number?, exponentValue]
  split
  · rfl
  · exact Option.map_eq_bind.symm

def significand (n : Numeral) : Nat := Nat.ofDigitChars 10 (n.whole ++ n.fraction) 0

def shift (n : Numeral) : Int := n.exponentValue.getD 0 - n.fraction.length

def ofNat (m : Nat) : Numeral where
  whole := Nat.toDigits 10 m
  fraction := []
  exponent := none
  whole_digits := areDigits_toDigits m
  fraction_digits := by simp [AreDigits]
  exponent_digits := by simp
  whole_ne_nil := Nat.toDigits_ne_nil
  exponent_ne_nil := by simp

private theorem significand_eq {n : Numeral} {m after : Nat} (before : Nat)
    (h : n.whole ++ n.fraction =
      List.replicate before '0' ++ (Nat.toDigits 10 m ++ List.replicate after '0')) :
    n.significand = m * 10 ^ after := by
  rw [significand, h, Nat.ofDigitChars_append, Nat.ofDigitChars_append,
    Nat.ofDigitChars_replicate_zero, Nat.ofDigitChars_replicate_zero, Nat.mul_zero,
    Nat.ofDigitChars_ten_toDigits, Nat.mul_comm]

/-- A numeral with a point or an exponent that stands for a decimal number. It may have zeros more
than that, one of them after the point. -/
structure Denotes (n : Numeral) (d : Decimal) (zeros : Nat) : Prop where
  significand_eq : n.significand = d.digits * 10 ^ zeros
  shift_eq : n.shift = d.exponent - zeros
  zeros_le : zeros ≤ (d.exponent + 1).toNat
  notWhole : n.fraction ≠ [] ∨ n.exponent ≠ none
  readable : 0 < d.digits ∨ d.exponent ≤ 0 →
    ¬(1 < n.whole.length ∧ n.whole.head? = some '0')

end Numeral

/-! ### What is written -/

private theorem toList_zeros (n : Nat) : (Decimal.zeros n).toList = List.replicate n '0' :=
  String.toList_ofList

section Positional

variable {d : Decimal}

private theorem exists_numeral_whole (h : 0 ≤ d.exponent) : ∃ n : Numeral,
    n.chars = Nat.toDigits 10 d.digits ++ (List.replicate d.exponent.toNat '0' ++ ['.', '0']) ∧
      n.Denotes d (d.exponent.toNat + 1) := by
  have hne : Nat.toDigits 10 d.digits ≠ [] := Nat.toDigits_ne_nil
  let n : Numeral :=
    { whole := Nat.toDigits 10 d.digits ++ List.replicate d.exponent.toNat '0'
      fraction := ['0']
      exponent := none
      whole_digits := areDigits_append.mpr ⟨areDigits_toDigits _, areDigits_zeros _⟩
      fraction_digits := areDigits_zeros 1
      exponent_digits := by simp
      whole_ne_nil := by simp [hne]
      exponent_ne_nil := by simp }
  refine ⟨n, ?_, ?_, ?_, by omega, .inl (by simp [n]), ?_⟩
  · simp [n, Numeral.chars, Numeral.fractionChars, Numeral.exponentChars]
  · exact Numeral.significand_eq 0 (by simp [n, List.replicate_succ'])
  · simp [n, Numeral.shift, Numeral.exponentValue]
    omega
  · rintro hreadable ⟨hlength, hzero⟩
    by_cases hdigits : 0 < d.digits
    · rw [List.head?_append_of_ne_nil _ hne] at hzero
      exact head_toDigits_ne_zero hdigits hzero
    · have hnone : d.digits = 0 ∧ d.exponent.toNat = 0 := by omega
      simp [n, hnone] at hlength

private theorem exists_numeral_inside (lead : Nat) (hpos : 0 < lead)
    (h : d.exponent + (Nat.toDigits 10 d.digits).length = lead) (hneg : d.exponent < 0) :
    ∃ n : Numeral,
      n.chars = (Nat.toDigits 10 d.digits).take lead ++ '.' :: (Nat.toDigits 10 d.digits).drop lead ∧
        n.Denotes d 0 := by
  have hdigits := areDigits_toDigits d.digits
  have hrest : (Nat.toDigits 10 d.digits).drop lead ≠ [] := by simp; omega
  let n : Numeral :=
    { whole := (Nat.toDigits 10 d.digits).take lead
      fraction := (Nat.toDigits 10 d.digits).drop lead
      exponent := none
      whole_digits := fun c hc => hdigits c (List.mem_of_mem_take hc)
      fraction_digits := fun c hc => hdigits c (List.mem_of_mem_drop hc)
      exponent_digits := by simp
      whole_ne_nil := by simp; omega
      exponent_ne_nil := by simp }
  refine ⟨n, ?_, ?_, ?_, by omega, .inl hrest, ?_⟩
  · simp [n, Numeral.chars, Numeral.fractionChars_of_ne_nil hrest, Numeral.exponentChars]
  · exact Numeral.significand_eq 0 (by simp [n])
  · simp [n, Numeral.shift, Numeral.exponentValue]
    omega
  · rintro - ⟨-, hzero⟩
    have hhead : (Nat.toDigits 10 d.digits).head? = some '0' := by
      rw [List.head?_take, if_neg (by omega)] at hzero
      exact hzero
    have hnone : d.digits = 0 := by
      by_contra hdigits
      exact head_toDigits_ne_zero (Nat.pos_of_ne_zero hdigits) hhead
    rw [hnone, Nat.toDigits_zero, List.length_singleton] at h
    omega

private theorem exists_numeral_below (gap : Nat)
    (h : -(d.exponent + (Nat.toDigits 10 d.digits).length) = gap) : ∃ n : Numeral,
    n.chars = '0' :: '.' :: (List.replicate gap '0' ++ Nat.toDigits 10 d.digits) ∧
      n.Denotes d 0 := by
  have hrest : List.replicate gap '0' ++ Nat.toDigits 10 d.digits ≠ [] := by simp
  let n : Numeral :=
    { whole := ['0']
      fraction := List.replicate gap '0' ++ Nat.toDigits 10 d.digits
      exponent := none
      whole_digits := areDigits_zeros 1
      fraction_digits := areDigits_append.mpr ⟨areDigits_zeros _, areDigits_toDigits _⟩
      exponent_digits := by simp
      whole_ne_nil := by simp
      exponent_ne_nil := by simp }
  refine ⟨n, ?_, ?_, ?_, by omega, .inl hrest, by simp [n]⟩
  · simp [n, Numeral.chars, Numeral.fractionChars_of_ne_nil hrest, Numeral.exponentChars]
  · exact Numeral.significand_eq (gap + 1) (by simp [n, List.replicate_succ])
  · simp [n, Numeral.shift, Numeral.exponentValue]
    omega

private theorem exists_numeral_positional (d : Decimal) : ∃ (n : Numeral) (zeros : Nat),
    (Decimal.positional true d).toList = n.chars ∧ n.Denotes d zeros := by
  have hlength : (toString d.digits).length = (Nat.toDigits 10 d.digits).length := by
    rw [← String.length_toList, toList_toString]
  unfold Decimal.positional
  simp only [hlength]
  split
  · next hwhole =>
    obtain ⟨n, hchars, hdenotes⟩ := exists_numeral_whole hwhole
    exact ⟨n, _, by rw [hchars]; simp [toList_zeros], hdenotes⟩
  · next hfraction =>
    split
    · next hinside =>
      obtain ⟨n, hchars, hdenotes⟩ := exists_numeral_inside (d := d)
        (d.exponent + (Nat.toDigits 10 d.digits).length).toNat (by omega) (by omega)
        (by omega)
      exact ⟨n, _, by rw [hchars]; simp, hdenotes⟩
    · next hbelow =>
      obtain ⟨n, hchars, hdenotes⟩ := exists_numeral_below (d := d)
        (-(d.exponent + (Nat.toDigits 10 d.digits).length)).toNat (by omega)
      exact ⟨n, _, by rw [hchars]; simp [toList_zeros], hdenotes⟩

end Positional

private theorem exists_numeral_scientific (d : Decimal) : ∃ n : Numeral,
    (Decimal.scientific d).toList = n.chars ∧ n.Denotes d 0 := by
  have hdigits := areDigits_toDigits d.digits
  obtain ⟨c, cs, hcs⟩ := List.exists_cons_of_ne_nil (Nat.toDigits_ne_nil (n := d.digits) (b := 10))
  have hlist : (toString d.digits).toList = c :: cs := by rw [toList_toString, hcs]
  rw [hcs] at hdigits
  generalize hlead : d.exponent + cs.length = lead
  let n : Numeral :=
    { whole := [c]
      fraction := cs
      exponent := some (decide (lead < 0), Nat.toDigits 10 lead.natAbs)
      whole_digits := fun e he => hdigits e (by simp_all)
      fraction_digits := fun e he => hdigits e (by simp [he])
      exponent_digits := by simp [areDigits_toDigits]
      whole_ne_nil := by simp
      exponent_ne_nil := by simp }
  have hexponent : n.exponentValue = some lead := by
    simp only [n, Numeral.exponentValue, Nat.ofDigitChars_ten_toDigits, decide_eq_true_eq,
      Option.map_some, Option.some.injEq]
    split
    · next hneg => rw [Int.ofNat_natAbs_of_nonpos hneg.le, Int.neg_neg]
    · next hneg => exact Int.natAbs_of_nonneg (Int.not_lt.mp hneg)
  refine ⟨n, ?_, ?_, ?_, by omega, .inr (by simp [n]), by simp [n]⟩
  · have hfirst : d.exponent + ((c :: cs).length : Nat) - 1 = lead := by
      rw [List.length_cons]
      omega
    have hmark : (if lead < 0 then "e-" else "e+").toList =
        ['e', if decide (lead < 0) = true then '-' else '+'] := by
      by_cases hneg : lead < 0 <;> simp [hneg]
    simp only [Decimal.scientific, hlist, hfirst, String.toList_append, hmark, toList_toString,
      String.toList_ofList]
    cases cs <;> simp [n, Numeral.chars, Numeral.fractionChars, Numeral.exponentChars]
  · exact Numeral.significand_eq 0 (by simp [n, hcs])
  · rw [Numeral.shift, hexponent, Option.getD_some]
    simp only [n]
    omega

def signChars (negative : Bool) : List Char := if negative then ['-'] else []

theorem exists_numeral_write (x : Double) : ∃ (n : Numeral) (zeros : Nat),
    (Decimal.document.write x).toList = signChars x.negative ++ n.chars ∧
      n.Denotes (Decimal.shortest .even x.rank) zeros := by
  have hsign : (if x.negative = true then "-" else "").toList = signChars x.negative := by
    cases x.negative <;> rfl
  simp only [Decimal.Layout.write, String.toList_append, hsign]
  split
  · obtain ⟨n, zeros, htext, hvalue⟩ := exists_numeral_positional (Decimal.shortest .even x.rank)
    exact ⟨n, zeros, congrArg _ htext, hvalue⟩
  · obtain ⟨n, htext, hvalue⟩ := exists_numeral_scientific (Decimal.shortest .even x.rank)
    exact ⟨n, 0, congrArg _ htext, hvalue⟩

private theorem toList_printNumber_int (m : Int) :
    (printNumber (.int m)).toList = signChars (decide (m < 0)) ++ (Numeral.ofNat m.natAbs).chars := by
  have hchars : (Numeral.ofNat m.natAbs).chars = Nat.toDigits 10 m.natAbs := by
    simp [Numeral.chars, Numeral.ofNat, Numeral.fractionChars, Numeral.exponentChars]
  rw [hchars, printNumber]
  cases m with
  | ofNat k =>
    have hsign : decide (Int.ofNat k < 0) = false := by simp
    rw [hsign]
    exact toList_toString k
  | negSucc k =>
    have hsign : decide (Int.negSucc k < 0) = true := by simp [Int.negSucc_lt_zero]
    have htext : toString (Int.negSucc k) = "-" ++ toString (k + 1) := rfl
    rw [hsign, htext, String.toList_append, toList_toString]
    rfl

theorem exists_numeral (m : Number) : ∃ (negative : Bool) (n : Numeral),
    (printNumber m).toList = signChars negative ++ n.chars := by
  cases m with
  | int m => exact ⟨_, _, toList_printNumber_int m⟩
  | float x =>
    obtain ⟨n, _, htext, _⟩ := exists_numeral_write x
    exact ⟨_, n, htext⟩

/-! ### What is read -/

private theorem readValue_of_digit {fuel depth : Nat} {c : Char} {cs : List Char}
    (h : c.isDigit = true) :
    readValue assemble (fuel + 1) depth (c :: cs) = readUnsigned assemble false (c :: cs) := by
  unfold readValue
  split
  all_goals first
    | rfl
    | next heq =>
      rw [List.cons.injEq] at heq
      rw [heq.1] at h
      cases h

private theorem readValue_chars (fuel depth : Nat) (negative : Bool) (n : Numeral)
    {rest : List Char} (h : Closes rest) :
    readValue assemble (fuel + 1) depth (signChars negative ++ (n.chars ++ rest)) =
      (n.number? assemble negative).map fun m => (.number m, rest) := by
  rw [← n.readUnsigned_chars negative h]
  cases negative with
  | true => rw [signChars, if_pos rfl, List.singleton_append, readValue]
  | false =>
    obtain ⟨c, cs, hcs⟩ := List.exists_cons_of_ne_nil n.whole_ne_nil
    have hc := n.whole_digits c (by simp [hcs])
    rw [signChars, if_neg Bool.false_ne_true, List.nil_append, Numeral.chars, hcs,
      List.cons_append, List.cons_append, readValue_of_digit hc]

def Opens (c : Char) : Prop := c ∈ ['n', 't', 'f', '"', '-', '[', '\x7b'] ∨ c.isDigit = true

theorem Opens.not_isBlank {c : Char} (h : Opens c) : isBlank c = false := by
  rw [← Bool.not_eq_true, isBlank]
  simp only [Bool.or_eq_true, decide_eq_true_eq, not_or]
  refine ⟨⟨⟨?_, ?_⟩, ?_⟩, ?_⟩ <;>
  · rintro rfl
    simp [Opens] at h

theorem exists_cons_chars (negative : Bool) (n : Numeral) :
    ∃ c cs, signChars negative ++ n.chars = c :: cs ∧ Opens c := by
  cases negative with
  | true => exact ⟨'-', n.chars, rfl, .inl (by simp)⟩
  | false =>
    obtain ⟨c, cs, hcs⟩ := List.exists_cons_of_ne_nil n.whole_ne_nil
    exact ⟨c, _, by rw [signChars, Numeral.chars, hcs]; rfl, .inr (n.whole_digits c (by simp [hcs]))⟩

end Json

namespace Number

open Json

variable {assemble : Assembly}

def reread? (m : Number) (assemble : Assembly) : Option Number :=
  match readWith? assemble (printNumber m) with
  | some (.number m) => some m
  | _ => none

theorem reread?_of_chars {m : Number} {negative : Bool} {n : Numeral}
    (h : (printNumber m).toList = signChars negative ++ n.chars) :
    m.reread? assemble = n.number? assemble negative := by
  have hvalue := @readValue_chars assemble (2 * (printNumber m).toList.length + 1) maxDepth negative n
    [] .nil
  obtain ⟨c, cs, hcs, hc⟩ := exists_cons_chars negative n
  have hblanks : skipBlanks (printNumber m).toList = (printNumber m).toList := by
    rw [h, hcs]
    exact List.dropWhile_cons_of_neg (by simp [hc.not_isBlank])
  rw [List.append_nil, ← h] at hvalue
  simp only [reread?, readWith?, hblanks, hvalue]
  cases n.number? assemble negative <;> rfl

theorem readValue_printNumber (m : Number) (fuel depth : Nat) {rest : List Char}
    (h : Closes rest) :
    readValue assemble (fuel + 1) depth ((printNumber m).toList ++ rest) =
      (m.reread? assemble).map fun m => (.number m, rest) := by
  obtain ⟨negative, n, hn⟩ := exists_numeral m
  rw [reread?_of_chars hn, hn, List.append_assoc, readValue_chars fuel depth negative n h]

theorem accumulate_of_lt (n : Nat) (digits : List Char)
    (h : Nat.ofDigitChars 10 digits n < 0x10000000000000000) :
    accumulate n digits = (Nat.ofDigitChars 10 digits n, []) := by
  induction digits generalizing n with
  | nil => rfl
  | cons c digits ih =>
    rw [Nat.ofDigitChars_cons, Nat.mul_comm] at h ⊢
    have hnext : n * 10 + digitValue c < 0x10000000000000000 :=
      Nat.lt_of_le_of_lt (Text.ofDigitChars_le digits _) h
    rw [accumulate]
    simp only [hnext, if_true]
    exact ih _ h

theorem reread?_int (hsound : assemble.Sound) {m : Int} (h : (Number.int m).Storable) :
    (Number.int m).reread? assemble = some (.int m) := by
  have hhead : ¬(1 < (Nat.toDigits 10 m.natAbs).length ∧
      (Nat.toDigits 10 m.natAbs).head? = some '0') := by
    rintro ⟨hlength, hzero⟩
    by_cases hm : 0 < m.natAbs
    · exact Text.head_toDigits_ne_zero hm hzero
    · rw [Nat.eq_zero_of_not_pos hm, Nat.toDigits_zero] at hlength
      simp at hlength
  have hvalue : Nat.ofDigitChars 10 (Nat.toDigits 10 m.natAbs) 0 = m.natAbs :=
    Nat.ofDigitChars_ten_toDigits
  obtain ⟨hlow, hhigh⟩ := h
  have haccumulate := accumulate_of_lt 0 (Nat.toDigits 10 m.natAbs) (by omega)
  rw [reread?_of_chars (toList_printNumber_int m)]
  simp only [Numeral.number?, Numeral.ofNat, Numeral.exponentValue, hhead, if_false,
    Option.map_none, hsound.whole, assembleNumber, haccumulate, hvalue, List.isEmpty_nil,
    Option.isNone_none, Bool.and_self, if_true, decide_eq_true_eq]
  by_cases hneg : m < 0
  · have hsmall : 0 < m.natAbs ∧ m.natAbs ≤ 0x8000000000000000 := by omega
    have hsign : -(m.natAbs : Int) = m := by omega
    rw [if_pos hneg, if_pos hsmall, hsign]
  · have hsign : (m.natAbs : Int) = m := by omega
    rw [if_neg hneg, hsign]

end Number

def Double.ReadsBack (x : Double) (assemble : Json.Assembly) : Prop :=
  (Number.float x).reread? assemble = some (.float x)

end ConceptSync
