import Mathlib.Data.List.Forall2
import Mathlib.Data.List.Nodup
import ConceptSync.Proofs.Frame.Merge
import ConceptSync.Proofs.Join.Offer

set_option autoImplicit false
set_option relaxedAutoImplicit false

/-!
The combinations of an offer without the fold that computes them: one pending frame of every other
slot, taken in all possible ways, and of these the ones whose completions are different and whose
frames are compatible two by two.
-/

namespace ConceptSync

def selections {α : Type} : List (List α) → List (List α)
  | [] => [[]]
  | slot :: slots => slot.flatMap fun a => (selections slots).map (a :: ·)

theorem mem_selections {α : Type} {slots : List (List α)} {s : List α} :
    s ∈ selections slots ↔ List.Forall₂ (· ∈ ·) s slots := by
  induction slots generalizing s with
  | nil => simp [selections]
  | cons slot slots ih =>
    simp only [selections, List.mem_flatMap, List.mem_map, ih]
    constructor
    · rintro ⟨a, ha, s, hs, rfl⟩
      exact .cons ha hs
    · rintro (_ | ⟨ha, hs⟩)
      exact ⟨_, ha, _, hs, rfl⟩

theorem exists_mem_of_selections {α : Type} {slots : List (List α)} {s : List α}
    (h : s ∈ selections slots) : ∀ a ∈ s, ∃ slot ∈ slots, a ∈ slot := by
  induction mem_selections.mp h with
  | nil => exact List.forall_mem_nil _
  | cons ha hs ih =>
    refine List.forall_mem_cons.mpr ⟨⟨_, List.mem_cons_self .., ha⟩, fun b hb => ?_⟩
    obtain ⟨slot, hslot, hb⟩ := ih (mem_selections.mpr hs) b hb
    exact ⟨slot, List.mem_cons_of_mem _ hslot, hb⟩

theorem map_selections {α β : Type} (g : α → β) (slots : List (List α)) :
    (selections slots).map (List.map g) = selections (slots.map (List.map g)) := by
  induction slots with
  | nil => rfl
  | cons slot slots ih =>
    simp only [selections, List.map_flatMap, List.map_cons, List.flatMap_map, ← ih, List.map_map]
    rfl

theorem nodup_selections {α : Type} {slots : List (List α)} (h : ∀ slot ∈ slots, slot.Nodup) :
    (selections slots).Nodup := by
  induction slots with
  | nil => exact List.nodup_singleton _
  | cons slot slots ih =>
    obtain ⟨hslot, hslots⟩ := List.forall_mem_cons.mp h
    rw [selections, List.nodup_flatMap]
    constructor
    · intro a _
      exact (ih hslots).map fun _ _ heq => (List.cons.inj heq).2
    · refine hslot.imp fun hne s hs hs' => ?_
      obtain ⟨_, _, rfl⟩ := List.mem_map.mp hs
      obtain ⟨_, _, heq⟩ := List.mem_map.mp hs'
      exact hne (List.cons.inj heq).1.symm

theorem filterMap_eq_map_filter {α β : Type} {l : List α} {g : α → Option β}
    {image : α → β} (keep : α → Bool)
    (h : ∀ a ∈ l, ∀ b, g a = some b ↔ keep a = true ∧ image a = b) :
    l.filterMap g = (l.filter keep).map image := by
  induction l with
  | nil => rfl
  | cons a l ih =>
    obtain ⟨ha, hl⟩ := List.forall_mem_cons.mp h
    cases hkeep : keep a with
    | false =>
      have hnone : g a = none := by
        cases hga : g a with
        | none => rfl
        | some b => simp [hkeep] at ha; exact absurd hga (ha b)
      rw [List.filterMap_cons_none hnone, List.filter_cons_of_neg (by simp [hkeep]), ih hl]
    | true =>
      have hsome : g a = some (image a) := (ha _).mpr ⟨hkeep, rfl⟩
      rw [List.filterMap_cons_some hsome, List.filter_cons_of_pos hkeep, List.map_cons, ih hl]

namespace JoinState

private theorem foldl_extend_eq_selections (slots : List (List Pending)) (partials : List Joined) :
    slots.foldl extend partials =
      partials.flatMap fun j => (selections slots).filterMap fun s => s.foldlM extendWith? j := by
  induction slots generalizing partials with
  | nil => simp [selections]
  | cons slot slots ih =>
    rw [List.foldl_cons, ih, extend, List.flatMap_assoc]
    refine List.flatMap_congr fun j _ => ?_
    simp only [selections, List.filterMap_flatMap, List.filterMap_map]
    induction slot with
    | nil => rfl
    | cons p slot ihslot =>
      rw [List.flatMap_cons, ← ihslot]
      cases hextend : extendWith? j p <;> simp [hextend, List.foldlM_cons]

private theorem extendWith?_eq_some_iff {j j' : Joined} {p : Pending} (hkeys : p.frame.keys.Nodup) :
    extendWith? j p = some j' ↔ p.seq ∉ j.seqs ∧ j.frame.Compatible p.frame ∧
      ⟨j.frame.overlay p.frame, j.seqs ++ [p.seq]⟩ = j' := by
  unfold extendWith?
  by_cases hmem : p.seq ∈ j.seqs
  · simp [hmem]
  · rw [if_neg hmem, Option.map_eq_some_iff]
    simp only [Frame.merge?_eq_some_iff hkeys]
    constructor
    · rintro ⟨_, ⟨hcompatible, rfl⟩, rfl⟩
      exact ⟨hmem, hcompatible, rfl⟩
    · rintro ⟨_, hcompatible, rfl⟩
      exact ⟨_, ⟨hcompatible, rfl⟩, rfl⟩

theorem foldlM_extendWith?_eq_some_iff {f : Frame} {seqs : List Int} {s : List Pending} {j : Joined}
    (hkeys : ∀ p ∈ s, p.frame.keys.Nodup) :
    s.foldlM extendWith? ⟨f, seqs⟩ = some j ↔
      (∀ p ∈ s, p.seq ∉ seqs) ∧ (s.map Pending.seq).Nodup ∧
        (f :: s.map Pending.frame).Pairwise Frame.Compatible ∧
        ⟨f.overlayAll (s.map Pending.frame), seqs ++ s.map Pending.seq⟩ = j := by
  induction s generalizing f seqs with
  | nil => simp [Frame.overlayAll]
  | cons p s ih =>
    obtain ⟨hkey, hkeys⟩ := List.forall_mem_cons.mp hkeys
    have hfold : (p :: s).foldlM extendWith? ⟨f, seqs⟩ = some j ↔
        ∃ j', extendWith? ⟨f, seqs⟩ p = some j' ∧ s.foldlM extendWith? j' = some j := by
      simp [List.foldlM_cons, Option.bind_eq_some_iff]
    rw [hfold]
    constructor
    · rintro ⟨_, hfirst, hlater⟩
      obtain ⟨hnew, hcompatible, rfl⟩ := (extendWith?_eq_some_iff hkey).mp hfirst
      obtain ⟨hothers, hnodup, hpairwise, rfl⟩ := (ih hkeys).mp hlater
      rw [List.pairwise_cons] at hpairwise
      have hboth := fun g hg => (Frame.compatible_overlay_iff hcompatible).mp (hpairwise.1 g hg)
      refine ⟨?_, ?_, ?_, by simp [Frame.overlayAll]⟩
      · exact List.forall_mem_cons.mpr ⟨hnew, fun q hq hmem =>
          hothers q hq (List.mem_append_left _ hmem)⟩
      · refine List.nodup_cons.mpr ⟨fun hmem => ?_, hnodup⟩
        obtain ⟨q, hq, heq⟩ := List.mem_map.mp hmem
        exact hothers q hq (by simp [heq])
      · refine List.pairwise_cons.mpr ⟨?_, List.pairwise_cons.mpr ⟨?_, hpairwise.2⟩⟩
        · exact List.forall_mem_cons.mpr ⟨hcompatible, fun g hg => (hboth g hg).1⟩
        · exact fun g hg => (hboth g hg).2
    · rintro ⟨hothers, hnodup, hpairwise, rfl⟩
      obtain ⟨hnew, hothers⟩ := List.forall_mem_cons.mp hothers
      rw [List.map_cons, List.nodup_cons] at hnodup
      rw [List.map_cons, List.pairwise_cons, List.pairwise_cons, List.forall_mem_cons] at hpairwise
      obtain ⟨⟨hcompatible, hown⟩, hfirst, hrest⟩ := hpairwise
      refine ⟨_, (extendWith?_eq_some_iff hkey).mpr ⟨hnew, hcompatible, rfl⟩, (ih hkeys).mpr
        ⟨fun q hq hmem => ?_, hnodup.2, List.pairwise_cons.mpr ⟨fun g hg => ?_, hrest⟩,
          by simp [Frame.overlayAll]⟩⟩
      · rcases List.mem_append.mp hmem with hold | hlast
        · exact hothers q hq hold
        · exact hnodup.1 (List.mem_singleton.mp hlast ▸ List.mem_map_of_mem hq)
      · exact (Frame.compatible_overlay_iff hcompatible).mpr ⟨hown g hg, hfirst g hg⟩

/-- The combinations of an offered frame are the selections of the other slots that join with it. -/
theorem combinations_eq_selections (state : JoinState) (index : Nat) (seq : Int) (frame : Frame) :
    state.combinations index seq frame =
      (selections (state.slots.eraseIdx index)).filterMap fun s =>
        s.foldlM extendWith? ⟨frame, [seq]⟩ := by
  rw [combinations, foldl_extend_eq_selections, List.flatMap_singleton]

theorem offer_fst (state : JoinState) (index : Nat) (seq : Int) (frame : Frame) :
    (state.offer index seq frame).1 = state.combinations index seq frame := by
  unfold offer
  split
  · next h => exact h.symm
  · rfl

end JoinState

theorem offerSlots_of_unique {action : ActionId} {record : Record} {slot index : Nat}
    {patterns : List Pattern} {state : JoinState} {p : Pattern} {frame : Frame}
    (hp : patterns[index]? = some p)
    (hunify : p.unify? action record.input record.output = some frame)
    (hother : ∀ i q, patterns[i]? = some q → i ≠ index →
      q.unify? action record.input record.output = none) :
    offerSlots action record slot patterns state =
      state.offer (slot + index) record.seq frame := by
  induction patterns generalizing slot index with
  | nil => cases hp
  | cons q rest ih =>
    rw [offerSlots_cons]
    cases index with
    | zero =>
      obtain rfl : q = p := Option.some.inj hp
      have hrest : ∀ q ∈ rest, q.unify? action record.input record.output = none := by
        intro q hq
        obtain ⟨i, hi⟩ := List.mem_iff_getElem?.mp hq
        exact hother (i + 1) q hi (Nat.succ_ne_zero i)
      simp only [hunify, offerSlots_of_no_match hrest, List.append_nil, Nat.add_zero]
    | succ index =>
      rw [hother 0 q rfl (Nat.succ_ne_zero index).symm]
      simp only
      rw [ih hp fun i q hq hne => hother (i + 1) q hq (by omega)]
      congr 1
      omega

end ConceptSync
