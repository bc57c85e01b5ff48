import Mathlib.Data.List.Basic
import ConceptSync.Record.Uuid

set_option autoImplicit false
set_option relaxedAutoImplicit false

/-!
Identifiers read from their texts. An identifier is written in its hyphenated form, which is read as
the identifier again: every hyphen stands where it is looked for and nothing else does.
-/

namespace ConceptSync

namespace Uuid

private theorem ofChars?_map_digitChar (id : Uuid) :
    ofChars? (id.digits.map digitChar) = some id := by
  have hdigit : ∀ d : Fin 16, charDigit? (digitChar d) = some d := by decide +kernel
  have hread : (id.digits.map digitChar).mapM charDigit? = some id.digits := by
    induction id.digits with
    | nil => rfl
    | cons d digits ih => simp [hdigit, ih]
  simp only [ofChars?, hread, id.length_eq, dite_true]

private theorem fst_filter_zipIdx {hyphens : List Nat} {cs : List Char} {start : Nat}
    (h : ∀ i ∈ hyphens, i < start ∨ start + cs.length ≤ i) :
    ((cs.zipIdx start).filter fun e => decide (e.2 ∉ hyphens)).map Prod.fst = cs := by
  have hall : (cs.zipIdx start).filter (fun e => decide (e.2 ∉ hyphens)) = cs.zipIdx start := by
    refine List.filter_eq_self.mpr fun e he => decide_eq_true fun hmem => ?_
    have hrange := List.mem_zipIdx he
    rcases h e.2 hmem with hlt | hge <;> omega
  rw [hall, List.zipIdx_map_fst]

private theorem unhyphenated?_groups {a b c d e : List Char} (ha : a.length = 8)
    (hb : b.length = 4) (hc : c.length = 4) (hd : d.length = 4) (he : e.length = 12) :
    unhyphenated? (a ++ '-' :: (b ++ '-' :: (c ++ '-' :: (d ++ '-' :: e)))) =
      some (a ++ (b ++ (c ++ (d ++ e)))) := by
  have hlength : (a ++ '-' :: (b ++ '-' :: (c ++ '-' :: (d ++ '-' :: e)))).length = 36 := by
    simp [ha, hb, hc, hd, he]
  have hhyphens : ([8, 13, 18, 23].all fun i =>
      (a ++ '-' :: (b ++ '-' :: (c ++ '-' :: (d ++ '-' :: e))))[i]? == some '-') = true := by
    simp [List.getElem?_append, ha, hb, hc, hd]
  simp only [unhyphenated?, hlength, hhyphens, and_self, if_true, List.zipIdx_append,
    List.zipIdx_cons, ha, hb, hc, hd]
  rw [List.filter_append, List.map_append, fst_filter_zipIdx (by simp [ha]),
    List.filter_cons_of_neg (by simp), List.filter_append, List.map_append,
    fst_filter_zipIdx (by simp [hb]), List.filter_cons_of_neg (by simp), List.filter_append,
    List.map_append, fst_filter_zipIdx (by simp [hc]), List.filter_cons_of_neg (by simp),
    List.filter_append, List.map_append, fst_filter_zipIdx (by simp [hd]),
    List.filter_cons_of_neg (by simp), fst_filter_zipIdx (by simp)]

theorem parse?_text (id : Uuid) : parse? id.text = some id := by
  have hcount : (id.digits.map digitChar).length = 32 := by rw [List.length_map, id.length_eq]
  have hread := ofChars?_map_digitChar id
  have htext : id.text.toList =
      ['-'].intercalate (groups groupSizes (id.digits.map digitChar)) := String.toList_ofList
  generalize id.digits.map digitChar = cs at hcount hread htext
  obtain ⟨a, b, c, d, e, rfl, ha, hb, hc, hd, he⟩ : ∃ a b c d e : List Char,
      cs = a ++ (b ++ (c ++ (d ++ e))) ∧ a.length = 8 ∧ b.length = 4 ∧ c.length = 4 ∧
        d.length = 4 ∧ e.length = 12 :=
    ⟨cs.take 8, (cs.drop 8).take 4, ((cs.drop 8).drop 4).take 4,
      (((cs.drop 8).drop 4).drop 4).take 4, (((cs.drop 8).drop 4).drop 4).drop 4,
      by simp only [List.take_append_drop], by simp; omega, by simp; omega, by simp; omega,
      by simp; omega, by simp; omega⟩
  have hgroups : groups groupSizes (a ++ (b ++ (c ++ (d ++ e)))) = [a, b, c, d, e] := by
    simp [groups, groupSizes, ha, hb, hc, hd, List.take_of_length_le (Nat.le_of_eq he)]
  rw [hgroups] at htext
  have hchars : id.text.toList = a ++ '-' :: (b ++ '-' :: (c ++ '-' :: (d ++ '-' :: e))) := by
    rw [htext]
    simp [List.intercalate_cons_cons]
  have hlength : id.text.toList.length = 36 := by
    rw [hchars]
    simp [ha, hb, hc, hd, he]
  have hbare : unwrapped id.text.toList = id.text.toList := by
    simp [unwrapped, hlength]
  rw [parse?, hbare, if_neg (by omega), hchars, unhyphenated?_groups ha hb hc hd he,
    Option.bind_some, hread]

end Uuid

end ConceptSync
