import ConceptSync.Proofs.Frame.Algebra
import ConceptSync.Proofs.Join.Selections

set_option autoImplicit false
set_option relaxedAutoImplicit false

/-!
An offer as a natural join. The frames that an offer gives are the unions of the offered frame with
one pending frame of every other slot, for all ways to choose these from different completions that
agree. The partial combinations that the computation carries along do not show.
-/

namespace ConceptSync

def JoinsWith (seq : Int) (frame : Frame) (chosen : List Pending) : Prop :=
  (seq :: chosen.map Pending.seq).Nodup ∧
    (frame :: chosen.map Pending.frame).Pairwise Frame.Compatible

instance (seq : Int) (frame : Frame) (chosen : List Pending) :
    Decidable (JoinsWith seq frame chosen) :=
  inferInstanceAs (Decidable (_ ∧ _))

/-- What is joined of an offered frame and chosen ones: a variable has the value of the first of
them that binds it, and the completions are listed in the same order. -/
structure Joined.IsUnion (j : Joined) (seq : Int) (frame : Frame) (chosen : List Pending) :
    Prop where
  sorted : j.frame.Sorted
  get? : ∀ v, j.frame.get? v = (frame :: chosen.map Pending.frame).findSome? (·.get? v)
  seqs : j.seqs = seq :: chosen.map Pending.seq

namespace JoinState

/-- The states that offering frames to the slots of a fresh state leads to. -/
inductive Reachable : JoinState → Prop
  | empty (patterns : Nat) : Reachable (empty patterns)
  | offer {state : JoinState} (h : Reachable state) {index : Nat}
      (hindex : index < state.slots.length) (seq : Int) {frame : Frame} (hframe : frame.Sorted) :
      Reachable (state.offer index seq frame).2

/-- All ways to choose one pending frame of every other slot that join with the offered frame. -/
def ways (state : JoinState) (index : Nat) (seq : Int) (frame : Frame) : List (List Pending) :=
  (selections (state.slots.eraseIdx index)).filter fun chosen => decide (JoinsWith seq frame chosen)

variable {state : JoinState} {index : Nat} {seq : Int} {frame : Frame}

private theorem mem_offer {slot : List Pending} {p : Pending}
    (hslot : slot ∈ (state.offer index seq frame).2.slots) (hp : p ∈ slot) :
    (∃ slot ∈ state.slots, p ∈ slot) ∨ p = ⟨seq, frame⟩ := by
  rcases offer_cases state index seq frame with hoffer | hoffer
  · rw [hoffer] at hslot
    obtain ⟨i, hi⟩ := List.mem_iff_getElem?.mp hslot
    simp only [hold, List.getElem?_modify] at hi
    obtain ⟨before, hbefore, rfl⟩ := Option.map_eq_some_iff.mp hi
    have hmem : before ∈ state.slots := List.mem_of_getElem? hbefore
    split at hp
    · exact (List.mem_append.mp hp).imp (fun hold => ⟨before, hmem, hold⟩) List.mem_singleton.mp
    · exact .inl ⟨before, hmem, hp⟩
  · rw [hoffer] at hslot
    obtain ⟨before, hbefore, rfl⟩ := List.mem_map.mp hslot
    exact .inl ⟨before, hbefore, List.mem_of_mem_filter hp⟩

private theorem Reachable.sorted (h : state.Reachable) :
    ∀ slot ∈ state.slots, ∀ p ∈ slot, p.frame.Sorted := by
  induction h with
  | empty patterns =>
    intro slot hslot p hp
    rw [List.eq_of_mem_replicate hslot] at hp
    cases hp
  | offer _ _ seq hframe ih =>
    intro slot hslot p hp
    rcases mem_offer hslot hp with ⟨before, hbefore, hp⟩ | rfl
    · exact ih before hbefore p hp
    · exact hframe

private theorem foldlM_extendWith?_iff {chosen : List Pending} {j : Joined}
    (hkeys : ∀ p ∈ chosen, p.frame.keys.Nodup) :
    chosen.foldlM extendWith? ⟨frame, [seq]⟩ = some j ↔
      decide (JoinsWith seq frame chosen) = true ∧
        Joined.mk (frame.overlayAll (chosen.map Pending.frame)) (seq :: chosen.map Pending.seq) =
          j := by
  have hnew : (∀ p ∈ chosen, p.seq ∉ [seq]) ↔ seq ∉ chosen.map Pending.seq := by
    simp [eq_comm]
  rw [foldlM_extendWith?_eq_some_iff hkeys, hnew, decide_eq_true_iff, JoinsWith, List.nodup_cons]
  tauto

private theorem combinations_eq_map_ways (index : Nat) (seq : Int) (frame : Frame)
    (hsorted : ∀ slot ∈ state.slots, ∀ p ∈ slot, p.frame.Sorted) :
    state.combinations index seq frame = (state.ways index seq frame).map fun chosen =>
      ⟨frame.overlayAll (chosen.map Pending.frame), seq :: chosen.map Pending.seq⟩ := by
  rw [combinations_eq_selections, ways]
  refine filterMap_eq_map_filter _ fun chosen hchosen j => foldlM_extendWith?_iff fun p hp => ?_
  obtain ⟨slot, hslot, hmem⟩ := exists_mem_of_selections hchosen p hp
  exact (hsorted slot (List.mem_of_mem_eraseIdx hslot) p hmem).nodup_keys

/-- One offer computes the natural join: it gives one union for every way to choose pending frames
of the other slots that join with the offered one. If there is no way the frame is added to its slot
and nothing else changes; otherwise it is not stored, and the pending frames of the completions that
took part are removed from every slot. -/
theorem offer_natural_join (h : state.Reachable) (hindex : index < state.slots.length) (seq : Int)
    (hframe : frame.Sorted) :
    List.Forall₂ (fun chosen j => j.IsUnion seq frame chosen) (state.ways index seq frame)
      (state.offer index seq frame).1 ∧
    (state.ways index seq frame = [] → (state.offer index seq frame).2.slots =
      state.slots.set index (state.slots[index] ++ [⟨seq, frame⟩])) ∧
    (state.ways index seq frame ≠ [] → (state.offer index seq frame).2.slots =
      state.slots.map fun slot => slot.filter fun p =>
        decide (∀ chosen ∈ state.ways index seq frame, p.seq ∉ seq :: chosen.map Pending.seq)) := by
  have hcombinations := combinations_eq_map_ways index seq frame h.sorted
  refine ⟨?_, fun hnil => ?_, fun hne => ?_⟩
  · rw [offer_fst, hcombinations, List.forall₂_map_right_iff, List.forall₂_same]
    exact fun chosen _ => ⟨hframe.overlayAll _, frame.get?_overlayAll _, rfl⟩
  · rw [hnil, List.map_nil] at hcombinations
    rw [offer_of_combinations_nil hcombinations, hold, List.modify_eq_set_get _ hindex]
    rfl
  · have hjoined : state.combinations index seq frame ≠ [] := by
      rw [hcombinations]
      exact mt List.map_eq_nil_iff.mp hne
    rw [offer_of_combinations_ne hjoined, consume, hcombinations]
    refine List.map_congr_left fun slot _ => List.filter_congr fun p _ => ?_
    simp [List.mem_flatMap]

/-- Of the two frames in the last slot the offered one joins the one that agrees with the first slot,
where the same number is an integer. -/
theorem offer_natural_join_of_three :
    ∃ j, (((((empty 3).offer 0 1 [(⟨0⟩, .ofInt 1)]).2.offer 2 2
        [(⟨0⟩, .ofDouble (.ofInt 1)), (⟨1⟩, .null)]).2.offer 2 3 [(⟨0⟩, .ofInt 2)]).2.offer 1 4
          [(⟨1⟩, .null)]).1 = [j] ∧ j.seqs = [4, 1, 2] := by
  have hreach : Reachable ((((empty 3).offer 0 1 [(⟨0⟩, .ofInt 1)]).2.offer 2 2
      [(⟨0⟩, .ofDouble (.ofInt 1)), (⟨1⟩, .null)]).2.offer 2 3 [(⟨0⟩, .ofInt 2)]).2 := by
    refine .offer (.offer (.offer (.empty 3) (by decide) 1 (by decide)) ?_ 2 (by decide)) ?_ 3
      (by decide)
    · rw [length_slots_offer]
      decide
    · rw [length_slots_offer, length_slots_offer]
      decide
  obtain ⟨hjoined, _⟩ := offer_natural_join hreach
    (by simp only [length_slots_offer]; decide : 1 < _) 4
    (by decide : Frame.Sorted [(⟨1⟩, .null)])
  generalize hways : ways _ 1 4 [(⟨1⟩, .null)] = found at hjoined
  have hfound : found.map (·.map Pending.seq) = [[1, 2]] := by
    rw [← hways]
    decide +kernel
  obtain ⟨chosen, rfl, hchosen⟩ := List.map_eq_singleton_iff.mp hfound
  obtain ⟨j, rest, hj, hnil, heq⟩ := List.forall₂_cons_left_iff.mp hjoined
  obtain rfl := List.forall₂_nil_left_iff.mp hnil
  exact ⟨j, heq, by rw [hj.seqs, hchosen]⟩

end JoinState

end ConceptSync
