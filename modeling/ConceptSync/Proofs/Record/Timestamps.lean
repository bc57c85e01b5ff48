import ConceptSync.Proofs.Record.Calendar
import ConceptSync.Proofs.Text.Digits

set_option autoImplicit false
set_option relaxedAutoImplicit false

/-!
Points of time read from their texts. A text holds a calendar date, a time of day and an offset, and
each part is read up to where the next one begins.
-/

namespace ConceptSync

namespace Timestamp

open Text

/-! ### Digits -/

private theorem toList_padded (width n : Nat) : (padded width n).toList =
    List.replicate (width - (Nat.toDigits 10 n).length) '0' ++ Nat.toDigits 10 n := by
  have hlength : (toString n).length = (Nat.toDigits 10 n).length := by
    rw [← String.length_toList, toList_toString]
  simp only [padded, hlength, String.toList_append, String.toList_ofList, toList_toString]

private theorem areDigits_padded (width n : Nat) : AreDigits (padded width n).toList := by
  rw [toList_padded]
  exact areDigits_append.mpr ⟨areDigits_zeros _, areDigits_toDigits n⟩

private theorem padded_ne_nil (width n : Nat) : (padded width n).toList ≠ [] := by
  rw [toList_padded]
  exact List.append_ne_nil_of_right_ne_nil _ Nat.toDigits_ne_nil

private theorem ofDigitChars_padded (width n : Nat) :
    Nat.ofDigitChars 10 (padded width n).toList 0 = n := by
  rw [toList_padded, Nat.ofDigitChars_append, Nat.ofDigitChars_replicate_zero, Nat.mul_zero,
    Nat.ofDigitChars_ten_toDigits]

private theorem length_padded {width n : Nat} (hwidth : 0 < width) (h : n < 10 ^ width) :
    (padded width n).toList.length = width := by
  have hdigits := (Nat.length_toDigits_le_iff (b := 10) (by decide) hwidth).mpr h
  rw [toList_padded, List.length_append, List.length_replicate]
  omega

private theorem readDigits?_append {width : Nat} {digits rest : List Char}
    (hdigits : AreDigits digits) (hne : digits ≠ []) (hwidth : digits.length ≤ width)
    (hend : digits.length = width ∨ EndsDigits rest) :
    readDigits? width (digits ++ rest) = some (Nat.ofDigitChars 10 digits 0, rest) := by
  have hrest : EndsDigits (rest.take (width - digits.length)) := by
    rcases hend with hfull | hrest
    · rw [hfull, Nat.sub_self, List.take_zero]
      exact .nil
    · intro c hc
      rw [List.head?_take] at hc
      split at hc
      · cases hc
      · exact hrest c hc
  have htake : ((digits ++ rest).take width).takeWhile Char.isDigit = digits := by
    rw [List.take_append, List.take_of_length_le hwidth, takeWhile_digits hdigits hrest]
  have hempty : digits.isEmpty = false := by simpa using hne
  simp only [readDigits?, htake, hempty, Bool.false_eq_true, if_false, foldl_digits,
    List.drop_left]

private theorem readDigits?_padded (width n : Nat) (hwidth : 0 < width) (h : n < 10 ^ width)
    (rest : List Char) : readDigits? width ((padded width n).toList ++ rest) = some (n, rest) := by
  have hlength := length_padded hwidth h
  rw [readDigits?_append (areDigits_padded _ _) (padded_ne_nil _ _) (Nat.le_of_eq hlength)
    (.inl hlength), ofDigitChars_padded]

private theorem isBlank_of_isDigit {c : Char} (h : c.isDigit = true) : isBlank c = false := by
  have hdigits : ∀ n < 58, 48 ≤ n → isBlank (Char.ofNat n) = false := by decide +kernel
  rw [Char.isDigit_iff_toNat] at h
  rw [← Char.ofNat_toNat c]
  exact hdigits c.toNat (Nat.lt_succ_of_le h.2) h.1

private theorem skipBlanks_padded (width n : Nat) (rest : List Char) :
    skipBlanks ((padded width n).toList ++ rest) = (padded width n).toList ++ rest := by
  obtain ⟨c, cs, hcs⟩ := List.exists_cons_of_ne_nil (padded_ne_nil width n)
  have hc := areDigits_padded width n c (by simp [hcs])
  rw [hcs]
  exact List.dropWhile_cons_of_neg (by simp [isBlank_of_isDigit hc])

private theorem readField?_padded {n : Nat} (h : n < 100) (rest : List Char) :
    readField? ((padded 2 n).toList ++ rest) = some (n, rest) := by
  rw [readField?, skipBlanks_padded, readDigits?_padded 2 _ (by decide) h]

private theorem readMark?_cons {mark : Char} (h : isBlank mark = false) (rest : List Char) :
    readMark? mark (mark :: rest) = some rest := by
  have hskip : skipBlanks (mark :: rest) = mark :: rest :=
    List.dropWhile_cons_of_neg (by simp [h])
  simp [readMark?, hskip]

/-! ### Years and fractions -/

section Years

variable {rest : List Char}

private theorem readDigits?_all (width n : Nat) (h : EndsDigits rest) :
    readDigits? ((padded width n).toList ++ rest).length ((padded width n).toList ++ rest) =
      some (n, rest) := by
  rw [readDigits?_append (areDigits_padded _ _) (padded_ne_nil _ _) (by simp) (.inr h),
    ofDigitChars_padded]

private theorem readYear?_minus (n : Nat) (h : EndsDigits rest) :
    readYear? (("-" ++ padded 4 n).toList ++ rest) = some (-(n : Int), rest) := by
  have hchars : ("-" ++ padded 4 n).toList ++ rest = '-' :: ((padded 4 n).toList ++ rest) := by
    simp
  have hsign : ∀ cs, readYear? ('-' :: cs) =
      (readDigits? cs.length cs).map fun e => (-(e.1 : Int), e.2) := fun _ => rfl
  rw [hchars, hsign, readDigits?_all 4 n h, Option.map_some]

private theorem readYear?_plus (n : Nat) (h : EndsDigits rest) :
    readYear? (("+" ++ padded 4 n).toList ++ rest) = some ((n : Int), rest) := by
  have hchars : ("+" ++ padded 4 n).toList ++ rest = '+' :: ((padded 4 n).toList ++ rest) := by
    simp
  have hsign : ∀ cs, readYear? ('+' :: cs) =
      (readDigits? cs.length cs).map fun e => ((e.1 : Int), e.2) := fun _ => rfl
  rw [hchars, hsign, readDigits?_all 4 n h, Option.map_some]

private theorem readYear?_padded {n : Nat} (hn : n < 10000) (rest : List Char) :
    readYear? ((padded 4 n).toList ++ rest) = some ((n : Int), rest) := by
  have hdigits := readDigits?_padded 4 n (by decide) hn rest
  obtain ⟨c, cs, hcs⟩ := List.exists_cons_of_ne_nil (padded_ne_nil 4 n)
  have hc := areDigits_padded 4 n c (by simp [hcs])
  rw [readYear?, skipBlanks_padded]
  rw [hcs, List.cons_append] at hdigits ⊢
  split
  · next heq =>
    rw [(List.cons.inj heq).1] at hc
    cases hc
  · next heq =>
    rw [(List.cons.inj heq).1] at hc
    cases hc
  · rw [hdigits, Option.map_some]

private theorem readYear?_yearText (year : Int) (h : EndsDigits rest) :
    readYear? ((yearText year).toList ++ rest) = some (year, rest) := by
  unfold yearText
  split
  · next hplain =>
    have hvalue : (year.toNat : Int) = year := by omega
    rw [readYear?_padded (by omega), hvalue]
  · split
    · next hneg =>
      have hvalue : -(year.natAbs : Int) = year := by omega
      rw [readYear?_minus _ h, hvalue]
    · next hpos =>
      have hvalue : (year.natAbs : Int) = year := by omega
      rw [readYear?_plus _ h, hvalue]

end Years

def EndsClock (cs : List Char) : Prop := EndsDigits cs ∧ cs.head? ≠ some '.'

private theorem readFraction?_padded {digits n : Nat} {zone : List Char} (hpos : 0 < digits)
    (hdigits : digits ≤ 9) (hn : n < 10 ^ digits) (h : EndsClock zone) :
    readFraction? (("." ++ padded digits n).toList ++ zone) =
      some (n * 10 ^ (9 - digits), zone) := by
  have hchars : ("." ++ padded digits n).toList ++ zone =
      '.' :: ((padded digits n).toList ++ zone) := by
    simp
  have hlength := length_padded hpos hn
  have hread := readDigits?_append (areDigits_padded digits n) (padded_ne_nil _ _)
    (by omega : (padded digits n).toList.length ≤ 9) (.inr h.1)
  have hdrop : zone.dropWhile Char.isDigit = zone := by
    simpa using dropWhile_digits (areDigits_zeros 0) h.1
  rw [hchars, readFraction?, hread, ofDigitChars_padded]
  simp only [Option.map_some, List.length_append, hlength, Nat.add_sub_cancel, hdrop, Nat.pow_eq]

private theorem readFraction?_fractionText {nanos : Nat} {zone : List Char}
    (hnanos : nanos < 1000000000) (h : EndsClock zone) :
    readFraction? ((fractionText nanos).toList ++ zone) = some (nanos, zone) := by
  unfold fractionText
  split
  · next hzero =>
    have hempty : "".toList = [] := rfl
    rw [hzero, hempty, List.nil_append]
    unfold readFraction?
    split
    · exact absurd rfl h.2
    · rfl
  · split
    · next hmilli =>
      have hvalue : nanos / 1000000 * 10 ^ (9 - 3) = nanos := by omega
      rw [readFraction?_padded (by decide) (by decide) (by omega) h, hvalue]
    · split
      · next hmicro =>
        have hvalue : nanos / 1000 * 10 ^ (9 - 6) = nanos := by omega
        rw [readFraction?_padded (by decide) (by decide) (by omega) h, hvalue]
      · have hvalue : nanos * 10 ^ (9 - 9) = nanos := by omega
        rw [readFraction?_padded (by decide) (by decide) hnanos h, hvalue]

/-! ### Whole texts -/

def clockText (t : Timestamp) : String :=
  yearText t.year ++ "-" ++ padded 2 t.month ++ "-" ++ padded 2 t.day ++ "T" ++
    padded 2 t.hour ++ ":" ++ padded 2 t.minute ++ ":" ++ padded 2 t.second ++
    fractionText t.nanos

private theorem text_eq (t : Timestamp) : t.text = t.clockText ++ "Z" := rfl

def offsetText (offset : Int) : String :=
  (if offset < 0 then "-" else "+") ++ padded 2 (offset.natAbs / 60) ++ ":" ++
    padded 2 (offset.natAbs % 60)

/-- The text of a local time that is a number of minutes ahead of UTC. -/
def textAt (t : Timestamp) (offset : Int) : String := t.clockText ++ offsetText offset

private theorem bind_of_eq_some {α β : Type} {x : Option α} {a : α} (h : x = some a)
    (f : α → Option β) : x.bind f = f a := by
  rw [h, Option.bind_some]

private theorem parse?_clockText {t : Timestamp} {zone : String} {offset : Int}
    (ht : t.isValid = true)
    (hends : EndsClock zone.toList) (hzone : readOffset? (skipBlanks zone.toList) = some (offset, [])) :
    parse? (t.clockText ++ zone) =
      if (t.addMinutes (-offset)).isValid then some (t.addMinutes (-offset)) else none := by
  obtain ⟨-, -, -, hmonth, -, hday, hhour, hminute, hsecond, hnanos⟩ := of_decide_eq_true ht
  have hdays : daysInMonth t.year t.month ≤ 31 := by
    unfold daysInMonth
    split
    · split <;> omega
    · split <;> omega
  have hchars : (t.clockText ++ zone).toList =
      (yearText t.year).toList ++ '-' :: ((padded 2 t.month).toList ++ '-' ::
        ((padded 2 t.day).toList ++ 'T' :: ((padded 2 t.hour).toList ++ ':' ::
          ((padded 2 t.minute).toList ++ ':' :: ((padded 2 t.second).toList ++
            ((fractionText t.nanos).toList ++ zone.toList)))))) := by
    simp [clockText]
  have hnone : skipBlanks [] = [] := rfl
  rw [parse?, hchars]
  refine (bind_of_eq_some (readYear?_yearText t.year (.cons rfl)) _).trans ?_
  refine (bind_of_eq_some (readMark?_cons rfl _) _).trans ?_
  refine (bind_of_eq_some (readField?_padded (by omega) _) _).trans ?_
  refine (bind_of_eq_some (readMark?_cons rfl _) _).trans ?_
  refine (bind_of_eq_some (readField?_padded (by omega) _) _).trans ?_
  refine (bind_of_eq_some rfl _).trans ?_
  refine (bind_of_eq_some (readField?_padded (by omega) _) _).trans ?_
  refine (bind_of_eq_some (readMark?_cons rfl _) _).trans ?_
  refine (bind_of_eq_some (readField?_padded (by omega) _) _).trans ?_
  refine (bind_of_eq_some (readMark?_cons rfl _) _).trans ?_
  refine (bind_of_eq_some (readField?_padded (by omega) _) _).trans ?_
  refine (bind_of_eq_some (readFraction?_fractionText hnanos hends) _).trans ?_
  refine (bind_of_eq_some hzone _).trans ?_
  dsimp only
  rw [hnone, ht]
  rfl

theorem parse?_text {t : Timestamp} (ht : t.isValid = true) : parse? t.text = some t := by
  have hcalendar := onCalendar_of_isValid ht
  obtain ⟨hmoved, hminutes, hsecond, hnanos⟩ :=
    addMinutes_spec hcalendar (n := -0) (by decide) (by decide)
  have hstays : t.addMinutes (-0) = t :=
    eq_of_minutes hmoved hcalendar (by omega) hsecond hnanos
  have hends : EndsClock "Z".toList := ⟨.cons rfl, by decide⟩
  rw [text_eq, parse?_clockText ht hends rfl, hstays, if_pos ht]

theorem isValid_of_parse? {s : String} {t : Timestamp} (h : parse? s = some t) :
    t.isValid = true := by
  have hlast : ∀ (before : Bool) (u : Timestamp),
      ∀ t ∈ (if before && u.isValid then some u else none), t.isValid = true := by
    intro before u t ht
    split at ht
    · next hvalid =>
      rw [← Option.some.inj ht]
      exact (Bool.and_eq_true_iff.mp hvalid).2
    · cases ht
  have hbind : ∀ {α : Type} (o : Option α) (f : α → Option Timestamp),
      (∀ a, ∀ t ∈ f a, t.isValid = true) → ∀ t ∈ o.bind f, t.isValid = true := by
    intro α o f hf t ht
    obtain ⟨a, -, hmem⟩ := Option.bind_eq_some_iff.mp ht
    exact hf a t hmem
  suffices hall : ∀ t ∈ parse? s, t.isValid = true from hall t h
  unfold parse?
  dsimp only [Option.bind_eq_bind]
  repeat' first
    | exact hlast _ _
    | refine hbind _ _ fun _ => ?_
    | split

private theorem twoDigits?_padded {n : Nat} (h : n < 100) (rest : List Char) :
    twoDigits? ((padded 2 n).toList ++ rest) = some (n, rest) := by
  have hlength : (padded 2 n).toList.length = 2 := length_padded (by decide) h
  have hdigits := areDigits_padded 2 n
  have hvalue := ofDigitChars_padded 2 n
  obtain ⟨a, b, hab⟩ := List.length_eq_two.mp hlength
  rw [hab] at hdigits hvalue ⊢
  have ha := hdigits a (by simp)
  have hb := hdigits b (by simp)
  have hnumber : (a.toNat - '0'.toNat) * 10 + (b.toNat - '0'.toNat) = n := by
    rw [Nat.ofDigitChars_cons, Nat.ofDigitChars_cons, Nat.ofDigitChars_nil] at hvalue
    omega
  simp only [List.cons_append, List.nil_append, twoDigits?, ha, hb, Bool.and_self, if_true,
    hnumber]

private theorem readOffsetSize?_padded (hours minutes : Nat) (hhours : hours ≤ 23)
    (hminutes : minutes ≤ 59) :
    readOffsetSize? ((padded 2 hours).toList ++ ':' :: (padded 2 minutes).toList) =
      some (((hours * 60 + minutes : Nat) : Int), []) := by
  obtain ⟨c, cs, hcs⟩ := List.exists_cons_of_ne_nil (padded_ne_nil 2 minutes)
  have hc := areDigits_padded 2 minutes c (by simp [hcs])
  have hcolon : (':' :: (padded 2 minutes).toList).dropWhile (fun c => c = ':' || isBlank c) =
      (padded 2 minutes).toList := by
    rw [List.dropWhile_cons_of_pos (by decide), hcs]
    refine List.dropWhile_cons_of_neg ?_
    have hne : c ≠ ':' := by
      rintro rfl
      cases hc
    simp [hne, isBlank_of_isDigit hc]
  have hlast := twoDigits?_padded (n := minutes) (by omega) []
  rw [List.append_nil] at hlast
  simp only [readOffsetSize?, twoDigits?_padded (show hours < 100 by omega), Option.bind_eq_bind,
    Option.bind_some, hcolon, hlast, hminutes, hhours, and_self, if_true]

private theorem readOffset?_offsetText {offset : Int} (hlow : -1440 < offset)
    (hhigh : offset < 1440) :
    readOffset? (skipBlanks (offsetText offset).toList) = some (offset, []) := by
  have hsize := readOffsetSize?_padded (offset.natAbs / 60) (offset.natAbs % 60) (by omega)
    (by omega)
  have hvalue : offset.natAbs / 60 * 60 + offset.natAbs % 60 = offset.natAbs := by omega
  rw [hvalue] at hsize
  have hcolon : ":".toList = [':'] := rfl
  unfold offsetText
  split
  · next hneg =>
    have hsign : "-".toList = ['-'] := rfl
    have hblank : ∀ cs, skipBlanks ('-' :: cs) = '-' :: cs := fun cs => rfl
    simp only [String.toList_append, hsign, hcolon, List.append_assoc, List.cons_append,
      List.nil_append, hblank, readOffset?, hsize, Option.map_some]
    rw [Int.ofNat_natAbs_of_nonpos hneg.le, Int.neg_neg]
  · next hpos =>
    have hsign : "+".toList = ['+'] := rfl
    have hblank : ∀ cs, skipBlanks ('+' :: cs) = '+' :: cs := fun cs => rfl
    simp only [String.toList_append, hsign, hcolon, List.append_assoc, List.cons_append,
      List.nil_append, hblank, readOffset?, hsize]
    rw [Int.natAbs_of_nonneg (Int.not_lt.mp hpos)]

theorem parse?_textAt_iff {t u : Timestamp} {offset : Int} (ht : t.isValid = true)
    (hu : u.isValid = true) (hlow : -1440 < offset) (hhigh : offset < 1440) :
    parse? (t.textAt offset) = some u ↔
      u.minutes + offset = t.minutes ∧ u.second = t.second ∧ u.nanos = t.nanos := by
  have hends : EndsClock (offsetText offset).toList := by
    unfold offsetText
    split
    · have hsign : "-".toList = ['-'] := rfl
      simp only [String.toList_append, hsign, List.append_assoc, List.cons_append]
      exact ⟨.cons rfl, by simp⟩
    · have hsign : "+".toList = ['+'] := rfl
      simp only [String.toList_append, hsign, List.append_assoc, List.cons_append]
      exact ⟨.cons rfl, by simp⟩
  have hcalendar := onCalendar_of_isValid hu
  obtain ⟨hmoved, hminutes, hsecond, hnanos⟩ :=
    addMinutes_spec (onCalendar_of_isValid ht) (n := -offset) (by omega) (by omega)
  rw [textAt, parse?_clockText ht hends (readOffset?_offsetText hlow hhigh)]
  constructor
  · intro h
    split at h
    · rw [← Option.some.inj h]
      exact ⟨by omega, hsecond, hnanos⟩
    · cases h
  · rintro ⟨hsame, hseconds, hnano⟩
    have heq : t.addMinutes (-offset) = u :=
      eq_of_minutes hmoved hcalendar (by omega) (hsecond.trans hseconds.symm)
        (hnanos.trans hnano.symm)
    rw [heq, if_pos hu]

end Timestamp

end ConceptSync
