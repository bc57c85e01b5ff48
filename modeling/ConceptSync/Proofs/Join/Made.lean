import ConceptSync.Proofs.Frame.Unification
import ConceptSync.Proofs.Join.Selections

set_option autoImplicit false
set_option relaxedAutoImplicit false

/-!
What joined frames are made of. If every pending frame was made by the pattern of its slot from an
admitted completion, then a joined frame covers one such frame of each pattern.
-/

namespace ConceptSync

variable {admits : ActionId → Payload → Payload → Prop} {patterns : List Pattern}

/-- The pattern makes the frame of a completion that is admitted. -/
def Pattern.Makes (admits : ActionId → Payload → Payload → Prop) (p : Pattern) (f : Frame) : Prop :=
  ∃ action input output, admits action input output ∧ p.unify? action input output = some f

def Frame.JoinedOf (admits : ActionId → Payload → Payload → Prop) (patterns : List Pattern)
    (f : Frame) : Prop :=
  ∀ p ∈ patterns, ∃ g, p.Makes admits g ∧ f.Covers g

private theorem Pattern.Makes.nodup_keys {p : Pattern} {f : Frame} (h : p.Makes admits f) :
    f.keys.Nodup := by
  obtain ⟨_, _, _, _, hunify⟩ := h
  exact p.nodup_keys_unify? hunify

namespace JoinState

def MadeBy (admits : ActionId → Payload → Payload → Prop) (patterns : List Pattern)
    (state : JoinState) : Prop :=
  List.Forall₂ (fun p slot => ∀ pending ∈ slot, p.Makes admits pending.frame) patterns state.slots

namespace MadeBy

variable {state : JoinState} {index : Nat} {p : Pattern} {frame : Frame}

theorem empty (patterns : List Pattern) :
    (JoinState.empty patterns.length).MadeBy admits patterns := by
  simp [MadeBy, JoinState.empty, List.forall₂_iff_get]

private theorem hold (h : state.MadeBy admits patterns) (hp : patterns[index]? = some p)
    {pending : Pending} (hframe : p.Makes admits pending.frame) :
    (state.hold index pending).MadeBy admits patterns := by
  obtain ⟨hlength, hslots⟩ := List.forall₂_iff_get.mp h
  refine List.forall₂_iff_get.mpr ⟨by simpa [JoinState.hold] using hlength, fun i hi hi' q hq => ?_⟩
  simp only [JoinState.hold, List.length_modify] at hi'
  simp only [JoinState.hold, List.get_eq_getElem, List.getElem_modify] at hq
  split at hq
  · next heq =>
    subst heq
    rcases List.mem_append.mp hq with hold | hnew
    · exact hslots index hi hi' q hold
    · obtain rfl := List.mem_singleton.mp hnew
      obtain ⟨_, rfl⟩ := List.getElem?_eq_some_iff.mp hp
      exact hframe
  · exact hslots i hi hi' q hq

private theorem consume (h : state.MadeBy admits patterns) (seqs : List Int) :
    (state.consume seqs).MadeBy admits patterns :=
  List.forall₂_map_right_iff.mpr
    (List.Forall₂.imp (fun _ _ hslot p hp => hslot p (List.mem_of_mem_filter hp)) h)

theorem frame_combinations (h : state.MadeBy admits patterns) {seq : Int} {j : Joined}
    (hj : j ∈ state.combinations index seq frame) :
    ∃ s ∈ selections (state.slots.eraseIdx index),
      (frame :: s.map Pending.frame).Pairwise Frame.Compatible ∧
        j.frame = frame.overlayAll (s.map Pending.frame) := by
  obtain ⟨hlength, hslots⟩ := List.forall₂_iff_get.mp h
  rw [combinations_eq_selections] at hj
  obtain ⟨s, hs, hfold⟩ := List.mem_filterMap.mp hj
  have hkeys : ∀ pending ∈ s, pending.frame.keys.Nodup := by
    intro pending hpending
    obtain ⟨slot, hslot, hmem⟩ := exists_mem_of_selections hs pending hpending
    obtain ⟨i, hi, rfl⟩ := List.mem_iff_getElem.mp (List.mem_of_mem_eraseIdx hslot)
    exact (hslots i (hlength ▸ hi) hi _ hmem).nodup_keys
  obtain ⟨_, _, hcompatible, rfl⟩ := (foldlM_extendWith?_eq_some_iff hkeys).mp hfold
  exact ⟨s, hs, hcompatible, rfl⟩

private theorem combinations (h : state.MadeBy admits patterns) (hp : patterns[index]? = some p)
    (hframe : p.Makes admits frame) {seq : Int} {j : Joined}
    (hj : j ∈ state.combinations index seq frame) : j.frame.JoinedOf admits patterns := by
  obtain ⟨s, hs, hcompatible, hjoined⟩ := h.frame_combinations hj
  obtain ⟨hlength, hslots⟩ := List.forall₂_iff_get.mp h
  obtain ⟨hlength', hselected⟩ := List.forall₂_iff_get.mp (mem_selections.mp hs)
  have hcovers := Frame.covers_overlayAll hcompatible
  intro q hq
  rw [hjoined]
  obtain ⟨i, hi⟩ := List.mem_iff_getElem?.mp hq
  by_cases heq : i = index
  · rw [heq, hp] at hi
    cases hi
    exact ⟨frame, hframe, hcovers frame (List.mem_cons_self ..)⟩
  · obtain ⟨hbound, rfl⟩ := List.getElem?_eq_some_iff.mp hi
    have hi' : i < state.slots.length := hlength ▸ hbound
    have hother : state.slots[i] ∈ state.slots.eraseIdx index :=
      List.mem_eraseIdx_iff_getElem.mpr ⟨i, hi', heq, rfl⟩
    obtain ⟨k, hk, hslot⟩ := List.mem_iff_getElem.mp hother
    have hmem := hselected k (hlength' ▸ hk) hk
    rw [List.get_eq_getElem, List.get_eq_getElem, hslot] at hmem
    exact ⟨_, hslots i hbound hi' _ hmem,
      hcovers _ (List.mem_cons_of_mem _ (List.mem_map_of_mem (List.getElem_mem _)))⟩

theorem offer (h : state.MadeBy admits patterns) (hp : patterns[index]? = some p)
    (hframe : p.Makes admits frame) (seq : Int) :
    (∀ j ∈ (state.offer index seq frame).1, j.frame.JoinedOf admits patterns) ∧
      (state.offer index seq frame).2.MadeBy admits patterns := by
  rcases offer_cases state index seq frame with hoffer | hoffer
  · rw [hoffer]
    exact ⟨by simp, h.hold hp hframe⟩
  · rw [hoffer]
    exact ⟨fun j hj => h.combinations hp hframe hj, h.consume _⟩

theorem offered (h : state.MadeBy admits patterns) {action : ActionId} {record : Record}
    (hadmits : admits action record.input record.output) {slot : Nat} {rest : List Pattern}
    (hrest : ∀ i q, rest[i]? = some q → patterns[slot + i]? = some q) :
    (∀ j ∈ (offerSlots action record slot rest state).1, j.frame.JoinedOf admits patterns) ∧
      (offerSlots action record slot rest state).2.MadeBy admits patterns := by
  induction rest generalizing slot state with
  | nil => exact ⟨by simp [offerSlots], h⟩
  | cons p rest ih =>
    have hlater : ∀ i q, rest[i]? = some q → patterns[slot + 1 + i]? = some q := by
      intro i q hq
      rw [Nat.add_assoc, Nat.add_comm 1 i]
      exact hrest (i + 1) q hq
    rw [offerSlots_cons]
    split
    · exact ih h hlater
    · next frame hunify =>
      obtain ⟨hnow, hstate⟩ := h.offer (hrest 0 p rfl) ⟨_, _, _, hadmits, hunify⟩ record.seq
      obtain ⟨hjoined, hafter⟩ := ih hstate hlater
      exact ⟨fun j hj => (List.mem_append.mp hj).elim (hnow j) (hjoined j), hafter⟩

end MadeBy

end JoinState

end ConceptSync
