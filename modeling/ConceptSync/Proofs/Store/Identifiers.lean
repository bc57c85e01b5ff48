import Mathlib.Algebra.Group.Nat.Defs
import Mathlib.Data.List.Basic
import ConceptSync.Proofs.Store.Sequence
import ConceptSync.Text.Characters

set_option autoImplicit false
set_option relaxedAutoImplicit false

/-!
Issued identifiers. Two of one family are the same only if their numbers agree in their last 16
hexadecimal digits, so records that follow each other are always told apart, and everything is as
long as the numbers stay below the supply.
-/

namespace ConceptSync

namespace Uuid

private theorem hexDigits_inj {n a b : Nat} :
    hexDigits n a = hexDigits n b ↔ a % 16 ^ n = b % 16 ^ n := by
  induction n generalizing a b with
  | zero => simp [hexDigits, Nat.mod_one]
  | succ n ih =>
    have hlast : Fin.ofNat 16 a = Fin.ofNat 16 b ↔ a % 16 = b % 16 := by
      simp [Fin.ext_iff, Fin.ofNat]
    rw [hexDigits, hexDigits, ← List.concat_eq_append, ← List.concat_eq_append, List.concat_inj,
      ih, hlast, Nat.pow_succ', Nat.mod_mul, Nat.mod_mul]
    omega

private theorem mod_eq_of_issue {family : Family} {m n : Nat}
    (h : issue family m = issue family n) :
    m % 16 ^ 16 = n % 16 ^ 16 := by
  have hdigits := congrArg Uuid.digits h
  have hserial := hexDigits_inj.mp (List.append_cancel_left hdigits)
  omega

def supply : Nat := 16 ^ 16

theorem issue_inj {family : Family} {m n : Nat} (hm : m < supply) (hn : n < supply)
    (h : issue family m = issue family n) : m = n := by
  have hmod : m % supply = n % supply := mod_eq_of_issue h
  rwa [Nat.mod_eq_of_lt hm, Nat.mod_eq_of_lt hn] at hmod

private theorem flatten_groups {sizes : List Nat} {digits : List Char}
    (h : digits.length ≤ sizes.foldr (fun n rest => n + rest) 0) :
    (groups sizes digits).flatten = digits := by
  induction sizes generalizing digits with
  | nil => exact (List.eq_nil_of_length_eq_zero (Nat.le_zero.mp h)).symm
  | cons n rest ih =>
    have hrest : (digits.drop n).length ≤ rest.foldr (fun n rest => n + rest) 0 := by
      rw [List.foldr_cons] at h
      rw [List.length_drop]
      omega
    rw [groups, List.flatten_cons, ih hrest, List.take_append_drop]

private theorem mem_groups {sizes : List Nat} {digits : List Char} :
    ∀ g ∈ groups sizes digits, ∀ c ∈ g, c ∈ digits := by
  induction sizes generalizing digits with
  | nil => simp [groups]
  | cons n rest ih =>
    rintro g (_ | ⟨_, hg⟩) c hc
    · exact List.mem_of_mem_take hc
    · exact List.mem_of_mem_drop (ih g hg c hc)

private theorem filter_intercalate {sep : Char} {gs : List (List Char)}
    (h : ∀ g ∈ gs, ∀ c ∈ g, c ≠ sep) :
    ([sep].intercalate gs).filter (· ≠ sep) = gs.flatten := by
  have hkept : ∀ g ∈ gs, g.filter (· ≠ sep) = g := fun g hg =>
    List.filter_eq_self.mpr fun c hc => by simpa using h g hg c hc
  induction gs with
  | nil => rfl
  | cons g rest ih =>
    have hrest := ih (fun g' hg' => h g' (by simp [hg'])) fun g' hg' => hkept g' (by simp [hg'])
    have hg := hkept g (by simp)
    cases rest with
    | nil => simpa using hg
    | cons g' more =>
      rw [List.intercalate_cons_cons, List.filter_append, List.filter_append, hrest, hg]
      simp

private theorem filter_text (id : Uuid) :
    id.text.toList.filter (· ≠ '-') = id.digits.map digitChar := by
  have hletter : ∀ d : Fin 16, digitChar d ≠ '-' := by decide +kernel
  rw [text, String.toList_ofList, filter_intercalate, flatten_groups]
  · simp [id.length_eq, groupSizes]
  · intro g hg c hc
    obtain ⟨d, _, rfl⟩ := List.mem_map.mp (mem_groups g hg c hc)
    exact hletter d

theorem text_injective {a b : Uuid} (h : a.text = b.text) : a = b := by
  have hdigit : ∀ d e : Fin 16, digitChar d = digitChar e → d = e := by decide +kernel
  have hdigits : a.digits.map digitChar = b.digits.map digitChar := by
    rw [← filter_text, ← filter_text, h]
  have hsame := (List.map_inj_right hdigit).mp hdigits
  cases a
  cases b
  cases hsame
  rfl

theorem not_isAllBlank_text (id : Uuid) : Text.isAllBlank id.text = false := by
  have hdigit : ∀ d : Fin 16, Text.isBlank (digitChar d) = false := by decide +kernel
  obtain ⟨d, hd⟩ : ∃ d, d ∈ id.digits :=
    List.exists_mem_of_length_pos (by rw [id.length_eq]; decide)
  have hchar : digitChar d ∈ id.text.toList.filter (· ≠ '-') :=
    id.filter_text ▸ List.mem_map_of_mem hd
  exact List.all_eq_false.mpr ⟨_, List.mem_of_mem_filter hchar, by simp [hdigit d]⟩

end Uuid

namespace RecordStore

variable {s s' : RecordStore} {d : Draft} {r : Record}

theorem seq_append (h : s.append d = (.ok r, s')) :
    r.seq = s.latest + 1 ∧ s'.latest = s.latest + 1 := by
  unfold append at h
  split at h
  · cases h
  · cases h
    exact ⟨by simp, rfl⟩

theorem seq_appendChild {parent : Int} (h : s.appendChild parent d = (.ok r, s')) :
    r.seq = s.latest + 1 ∧ s'.latest = s.latest + 1 := by
  unfold appendChild at h
  split at h
  · cases h
  · cases h
    exact ⟨by simp, rfl⟩

end RecordStore

theorem RecordStore.Reachable.nodup_ids {s : RecordStore} (h : s.Reachable)
    (hsupply : s.latest < Uuid.supply) : (s.records.map Record.id).Nodup := by
  refine List.pairwise_map.mpr (h.increasing.imp_of_mem fun {a b} ha hb hlt heq => ?_)
  have hle := h.seq_le a ha
  have hle' := h.seq_le b hb
  obtain ⟨m, hm, hmid⟩ := h.issued a ha
  obtain ⟨n, hn, hnid⟩ := h.issued b hb
  rw [hmid, hnid] at heq
  have hmn := Uuid.issue_inj (by omega) (by omega) heq
  omega

theorem Record.Issued.id_ne_of_lt {r s : Record} (hr : r.Issued) (hs : s.Issued)
    (hlater : r.seq < s.seq) (hclose : s.seq < r.seq + Uuid.supply) : s.id ≠ r.id := by
  obtain ⟨m, hm, hmid⟩ := hr
  obtain ⟨n, hn, hnid⟩ := hs
  intro heq
  rw [hmid, hnid] at heq
  have hmod := Uuid.mod_eq_of_issue heq
  unfold Uuid.supply at hclose
  omega

end ConceptSync
