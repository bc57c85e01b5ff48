import Mathlib.Data.List.Perm.Basic
import Mathlib.Data.String.Basic
import ConceptSync.Table

set_option autoImplicit false
set_option relaxedAutoImplicit false

/-!
Entries of tables: what setting a key does to them, and when a key has a value. Tables with texts
for keys stay sorted, so setting one key and removing another can be done in any order.
-/

namespace ConceptSync

namespace Table

variable {κ α : Type} [DecidableEq κ]

theorem mem_of_get? {t : Table κ α} {key : κ} {value : α} (h : t.get? key = some value) :
    (key, value) ∈ t := by
  induction t with
  | nil => cases h
  | cons e rest ih =>
    obtain ⟨k, a⟩ := e
    simp only [get?] at h
    split at h
    · next heq =>
      cases h
      simp [heq]
    · exact List.mem_cons_of_mem _ (ih h)

theorem isSome_get? {t : Table κ α} {key : κ} : (t.get? key).isSome = true ↔ key ∈ t.keys := by
  induction t with
  | nil => simp [get?, keys]
  | cons e rest ih =>
    obtain ⟨k, a⟩ := e
    simp only [get?, keys, List.map_cons, List.mem_cons]
    split
    · next heq => simp [heq]
    · next hne =>
      rw [ih]
      simp [keys, Ne.symm hne]

theorem get?_of_mem {t : Table κ α} (hkeys : t.keys.Nodup) {e : κ × α} (he : e ∈ t) :
    t.get? e.1 = some e.2 := by
  induction t with
  | nil => cases he
  | cons e' rest ih =>
    obtain ⟨k, a⟩ := e'
    obtain ⟨hnew, hrest⟩ := List.nodup_cons.mp hkeys
    simp only [get?]
    rcases List.mem_cons.mp he with rfl | hold
    · exact if_pos rfl
    · have hne : k ≠ e.1 := by
        rintro rfl
        have hmem : e.1 ∈ keys rest := List.mem_map_of_mem hold
        exact hnew hmem
      rw [if_neg hne]
      exact ih hrest hold

theorem get?_append (t other : Table κ α) (key : κ) :
    get? (t ++ other) key = (t.get? key).or (other.get? key) := by
  induction t with
  | nil => rfl
  | cons e rest ih =>
    obtain ⟨k, a⟩ := e
    simp only [List.cons_append, get?]
    split
    · rfl
    · exact ih

theorem get?_erase_of_ne (t : Table κ α) {key other : κ} (h : key ≠ other) :
    (t.erase key).get? other = t.get? other := by
  induction t with
  | nil => rfl
  | cons e rest ih =>
    obtain ⟨k, a⟩ := e
    simp only [erase]
    split
    · next heq => simp [get?, heq, h]
    · simp only [get?, ih]

theorem erase_sublist (t : Table κ α) (key : κ) : (t.erase key).Sublist t := by
  induction t with
  | nil => exact .refl _
  | cons e rest ih =>
    obtain ⟨k, a⟩ := e
    simp only [erase]
    split
    · exact List.sublist_cons_self _ _
    · exact ih.cons_cons _

private theorem erase_eq_filter {t : Table κ α} (hkeys : t.keys.Nodup) (key : κ) :
    t.erase key = t.filter fun e => e.1 ≠ key := by
  induction t with
  | nil => rfl
  | cons e rest ih =>
    obtain ⟨k, a⟩ := e
    obtain ⟨hnew, hrest⟩ := List.nodup_cons.mp hkeys
    simp only [erase]
    split
    · next heq =>
      have hkept : rest.filter (fun e => e.1 ≠ key) = rest := by
        refine List.filter_eq_self.mpr fun e he => decide_eq_true fun hsame => ?_
        have hmem : e.1 ∈ keys rest := List.mem_map_of_mem he
        exact hnew (by rwa [hsame, ← heq] at hmem)
      rw [List.filter_cons_of_neg (by simp [heq]), hkept]
    · next hne => simp [hne, ih hrest]

theorem foldl_erase {t : Table κ α} (hkeys : t.keys.Nodup) (gone : List κ) :
    gone.foldl erase t = t.filter fun e => e.1 ∉ gone := by
  induction gone generalizing t with
  | nil => simp
  | cons key gone ih =>
    have hsub : (t.erase key).keys.Sublist t.keys := by
      rw [erase_eq_filter hkeys]
      exact List.filter_sublist.map _
    rw [List.foldl_cons, ih (hkeys.sublist hsub), erase_eq_filter hkeys, List.filter_filter]
    exact List.filter_congr fun e _ => by simp [Bool.and_comm]

variable [LT κ] [DecidableLT κ]

theorem insert_of_last {t : Table κ α} {key : κ} (h : ∀ e ∈ t, e.1 ≠ key ∧ ¬key < e.1)
    (value : α) : t.insert key value = t ++ [(key, value)] := by
  induction t with
  | nil => rfl
  | cons e rest ih =>
    obtain ⟨hne, hge⟩ := h e (List.mem_cons_self ..)
    simp only [insert, if_neg hne, if_neg hge, List.cons_append]
    rw [ih fun e he => h e (List.mem_cons_of_mem _ he)]

theorem mem_insert {t : Table κ α} {key : κ} {value : α} {e : κ × α}
    (h : e ∈ t.insert key value) : e = (key, value) ∨ e ∈ t := by
  induction t with
  | nil => exact .inl (List.mem_singleton.mp h)
  | cons e' rest ih =>
    obtain ⟨k, a⟩ := e'
    simp only [insert] at h
    split at h
    · rcases List.mem_cons.mp h with rfl | hold
      · exact .inl rfl
      · exact .inr (List.mem_cons_of_mem _ hold)
    · split at h
      · rcases List.mem_cons.mp h with rfl | hold
        · exact .inl rfl
        · exact .inr hold
      · rcases List.mem_cons.mp h with rfl | hlater
        · exact .inr (List.mem_cons_self ..)
        · exact (ih hlater).imp_right (List.mem_cons_of_mem _)

theorem of_get?_insert {t : Table κ α} {key other : κ} {value a : α}
    (h : (t.insert key value).get? other = some a) :
    key = other ∧ value = a ∨ key ≠ other ∧ t.get? other = some a := by
  rw [get?_insert] at h
  split at h
  · next heq => exact .inl ⟨heq, Option.some.inj h⟩
  · next hne => exact .inr ⟨hne, h⟩

theorem pairwise_insert (htrans : ∀ {j k l : κ}, j < k → k < l → j < l)
    (htotal : ∀ {j k : κ}, j ≠ k → ¬k < j → j < k) {t : Table κ α}
    (h : t.Pairwise fun d e => d.1 < e.1) (key : κ) (value : α) :
    (t.insert key value).Pairwise fun d e => d.1 < e.1 := by
  induction t with
  | nil => exact List.pairwise_singleton _ _
  | cons e rest ih =>
    obtain ⟨k, a⟩ := e
    obtain ⟨hhead, hrest⟩ := List.pairwise_cons.mp h
    simp only [insert]
    split
    · next heq => exact List.pairwise_cons.mpr ⟨fun e he => heq ▸ hhead e he, hrest⟩
    · next hne =>
      split
      · next hlt =>
        refine List.pairwise_cons.mpr ⟨fun e he => ?_, h⟩
        rcases List.mem_cons.mp he with rfl | he
        · exact hlt
        · exact htrans hlt (hhead e he)
      · next hge =>
        refine List.pairwise_cons.mpr ⟨fun e he => ?_, ih hrest⟩
        rcases mem_insert he with rfl | he
        · exact htotal hne hge
        · exact hhead e he

theorem perm_insert {t : Table κ α} {key : κ} (value : α) (h : key ∉ t.keys) :
    (t.insert key value).Perm ((key, value) :: t) := by
  induction t with
  | nil => exact .refl _
  | cons e rest ih =>
    obtain ⟨k, a⟩ := e
    simp only [keys, List.map_cons, List.mem_cons, not_or] at h
    simp only [insert, if_neg (Ne.symm h.1)]
    split
    · exact .refl _
    · exact ((ih h.2).cons _).trans (.swap _ _ _)

private theorem isSome_get?_foldl (entries : List (κ × α)) (t : Table κ α) (key : κ) :
    ((entries.foldl (fun t e => t.insert e.1 e.2) t).get? key).isSome = true ↔
      (t.get? key).isSome = true ∨ key ∈ entries.map Prod.fst := by
  induction entries generalizing t with
  | nil => simp
  | cons e rest ih =>
    simp only [List.foldl_cons, ih, get?_insert, List.map_cons, List.mem_cons]
    by_cases heq : e.1 = key
    · simp [heq]
    · simp [heq, Ne.symm heq]

theorem mem_keys_ofList {entries : List (κ × α)} {key : κ} :
    key ∈ (ofList entries).keys ↔ key ∈ entries.map Prod.fst := by
  rw [← isSome_get?, ofList, isSome_get?_foldl]
  simp [get?]

section Sorted

variable {α : Type}

/-- The entries stand in increasing order of their keys. -/
def Sorted (t : Table String α) : Prop := t.Pairwise fun d e => d.1 < e.1

instance (t : Table String α) : Decidable t.Sorted :=
  inferInstanceAs (Decidable (t.Pairwise fun d e => d.1 < e.1))

variable {t : Table String α} {key other : String} {value : α}

theorem Sorted.insert (h : t.Sorted) (key : String) (value : α) : (t.insert key value).Sorted :=
  pairwise_insert lt_trans (fun hne hge => lt_of_le_of_ne (not_lt.mp hge) hne) h key value

theorem Sorted.nodup_keys (h : t.Sorted) : t.keys.Nodup :=
  List.pairwise_map.mpr (h.imp fun hlt => ne_of_lt hlt)

theorem Sorted.filter_key (h : t.Sorted) (key : String) :
    t.filter (fun e => e.1 == key) = (t.get? key).toList.map fun a => (key, a) := by
  induction t with
  | nil => rfl
  | cons e rest ih =>
    obtain ⟨k, a⟩ := e
    obtain ⟨hhead, hrest⟩ := List.pairwise_cons.mp h
    by_cases hkey : k = key
    · subst hkey
      have hnone : rest.filter (fun e => e.1 == k) = [] :=
        List.filter_eq_nil_iff.mpr fun e he heq =>
          ne_of_lt (hhead e he) (beq_iff_eq.mp heq).symm
      simp [get?, hnone]
    · simp [get?, hkey, ih hrest]

theorem sorted_erase (h : t.Sorted) (key : String) : (t.erase key).Sorted := by
  rw [erase_eq_filter h.nodup_keys]
  exact h.filter _

theorem get?_erase_self (h : t.Sorted) (key : String) : (t.erase key).get? key = none := by
  rw [← Option.not_isSome_iff_eq_none, isSome_get?, erase_eq_filter h.nodup_keys]
  simp [keys]

theorem Sorted.map_insert {β : Type} {g : String × α → β} (h : t.Sorted) {old : α}
    (hold : t.get? key = some old) (hsame : g (key, value) = g (key, old)) :
    (t.insert key value).map g = t.map g := by
  induction t with
  | nil => cases hold
  | cons e rest ih =>
    obtain ⟨k, a⟩ := e
    obtain ⟨hhead, hrest⟩ := List.pairwise_cons.mp h
    simp only [get?] at hold
    simp only [Table.insert]
    split at hold
    · next heq =>
      cases hold
      simp [heq, hsame]
    · next hne =>
      have hlater : k < key := hhead (key, old) (mem_of_get? hold)
      rw [if_neg hne, if_neg (not_lt_of_gt hlater), List.map_cons, List.map_cons, ih hrest hold]

theorem Sorted.get?_of_lt_head {k : String} {a : α} {rest : Table String α}
    (h : Sorted ((k, a) :: rest)) (hlt : key < k) : get? ((k, a) :: rest) key = none := by
  rw [← Option.not_isSome_iff_eq_none, isSome_get?, keys, List.map_cons, List.mem_cons]
  rintro (rfl | hmem)
  · exact lt_irrefl _ hlt
  · obtain ⟨e, he, rfl⟩ := List.mem_map.mp hmem
    exact lt_asymm hlt ((List.pairwise_cons.mp h).1 e he)

theorem length_le_length_insert (t : Table String α) (key : String) (value : α) :
    t.length ≤ (t.insert key value).length := by
  induction t with
  | nil => exact Nat.zero_le _
  | cons e rest ih =>
    obtain ⟨k, a⟩ := e
    simp only [Table.insert]
    split
    · exact Nat.le_refl _
    · split
      · exact Nat.le_succ _
      · exact Nat.succ_le_succ ih

private theorem Sorted.erase_insert (h : t.Sorted) (hne : key ≠ other) (value : α) :
    (t.insert key value).erase other = (t.erase other).insert key value := by
  induction t with
  | nil => simp [Table.insert, erase, hne]
  | cons e rest ih =>
    obtain ⟨k, a⟩ := e
    obtain ⟨hhead, hrest⟩ := List.pairwise_cons.mp h
    by_cases hkey : k = key
    · subst hkey
      simp [Table.insert, erase, hne]
    · by_cases hlt : key < k
      · by_cases hother : k = other
        · subst hother
          have hfirst : Table.insert rest key value = (key, value) :: rest := by
            cases rest with
            | nil => rfl
            | cons e rest =>
              have hnext : key < e.1 := lt_trans hlt (hhead e (List.mem_cons_self ..))
              simp [Table.insert, hnext, (ne_of_lt hnext).symm]
          simp [Table.insert, erase, hkey, hlt, hne, hfirst]
        · simp [Table.insert, erase, hkey, hlt, hne, hother]
      · by_cases hother : k = other
        · subst hother
          simp [Table.insert, erase, hkey, hlt]
        · simp [Table.insert, erase, hkey, hlt, hother, ih hrest]

theorem erase_ofList_cons {entries : List (String × α)} (h : key ∉ entries.map Prod.fst)
    (value : α) : (ofList ((key, value) :: entries)).erase key = ofList entries := by
  suffices hfold : ∀ t : Table String α, t.Sorted →
      (entries.foldl (fun t e => t.insert e.1 e.2) t).erase key =
        entries.foldl (fun t e => t.insert e.1 e.2) (t.erase key) by
    have hsingle : Sorted [(key, value)] := List.pairwise_singleton _ _
    refine (hfold _ hsingle).trans ?_
    simp [erase, ofList]
  induction entries with
  | nil => exact fun _ _ => rfl
  | cons e rest ih =>
    intro t ht
    obtain ⟨hne, hrest⟩ := not_or.mp (mt List.mem_cons.mpr h)
    simp only [List.foldl_cons]
    rw [ih hrest _ (ht.insert e.1 e.2), ht.erase_insert (Ne.symm hne)]

theorem sorted_ofList (entries : List (String × α)) : Sorted (ofList entries) := by
  suffices hfold : ∀ t : Table String α, t.Sorted →
      Sorted (entries.foldl (fun t e => t.insert e.1 e.2) t) from hfold [] .nil
  induction entries with
  | nil => exact fun _ ht => ht
  | cons e rest ih => exact fun t ht => ih _ (ht.insert e.1 e.2)

theorem perm_ofList {entries : List (String × α)} (h : (entries.map Prod.fst).Nodup) :
    (ofList entries).Perm entries := by
  suffices hfold : ∀ t : Table String α, ((entries ++ t).map Prod.fst).Nodup →
      (entries.foldl (fun t e => t.insert e.1 e.2) t).Perm (entries ++ t) by
    rw [← List.append_nil entries] at h
    exact (hfold [] h).trans (.of_eq (List.append_nil entries))
  clear h
  induction entries with
  | nil => exact fun t _ => .refl t
  | cons e rest ih =>
    intro t ht
    rw [List.cons_append, List.map_cons, List.map_append] at ht
    have hinsert : (t.insert e.1 e.2).Perm _ := perm_insert e.2 fun hmem =>
      (List.nodup_cons.mp ht).1 (List.mem_append_right _ hmem)
    have hnext : (rest ++ t.insert e.1 e.2).Perm (e :: (rest ++ t)) :=
      (hinsert.append_left rest).trans List.perm_middle
    refine (ih _ ((hnext.map Prod.fst).nodup_iff.mpr ?_)).trans hnext
    rwa [List.map_cons, List.map_append]

theorem get?_ofList {entries : List (String × α)} (h : (entries.map Prod.fst).Nodup)
    {e : String × α} (he : e ∈ entries) : (ofList entries).get? e.1 = some e.2 :=
  get?_of_mem (sorted_ofList entries).nodup_keys ((perm_ofList h).mem_iff.mpr he)

theorem Sorted.ofList_eq (h : t.Sorted) : ofList t = t :=
  (perm_ofList h.nodup_keys).eq_of_pairwise (fun _ _ _ _ hab hba => absurd hba (lt_asymm hab))
    (sorted_ofList t) h

theorem ofList_eq_of_perm {entries entries' : List (String × α)}
    (h : (entries.map Prod.fst).Nodup) (hperm : entries.Perm entries') :
    ofList entries = ofList entries' := by
  have hsame := (perm_ofList h).trans (hperm.trans
    (perm_ofList ((hperm.map Prod.fst).nodup_iff.mp h)).symm)
  exact hsame.eq_of_pairwise (fun _ _ _ _ hab hba => absurd hba (lt_asymm hab))
    (sorted_ofList entries) (sorted_ofList entries')

end Sorted

end Table

end ConceptSync
