import Mathlib.Data.List.Basic
import ConceptSync.Engine.Step

set_option autoImplicit false
set_option relaxedAutoImplicit false

/-!
What offering a completion to a rule joins and what it leaves pending. Whatever takes part in a
combination is removed from every slot, but a completion is offered pattern by pattern: after it
joined at one pattern it may be held at a later one.
-/

namespace ConceptSync

namespace JoinState

def Pends (state : JoinState) (seq : Int) : Prop :=
  ∃ slot ∈ state.slots, ∃ pending ∈ slot, pending.seq = seq

theorem not_pends_empty (patterns : Nat) (seq : Int) : ¬ (empty patterns).Pends seq := by
  rintro ⟨slot, hslot, pending, hpending, _⟩
  rw [List.eq_of_mem_replicate hslot] at hpending
  cases hpending

private theorem seqs_extend {partials : List Joined} {slot : List Pending} {j : Joined}
    (h : j ∈ extend partials slot) :
    ∃ i ∈ partials, ∃ pending ∈ slot, j.seqs = i.seqs ++ [pending.seq] := by
  obtain ⟨i, hi, hj⟩ := List.mem_flatMap.mp h
  obtain ⟨pending, hpending, hextended⟩ := List.mem_filterMap.mp hj
  unfold extendWith? at hextended
  split at hextended
  · cases hextended
  · obtain ⟨frame, _, rfl⟩ := Option.map_eq_some_iff.mp hextended
    exact ⟨i, hi, pending, hpending, rfl⟩

private theorem seqs_foldl_extend {slots : List (List Pending)} {partials : List Joined}
    {j : Joined} (h : j ∈ slots.foldl extend partials) :
    ∃ i ∈ partials, i.seqs ⊆ j.seqs ∧
      ∀ s ∈ j.seqs, s ∈ i.seqs ∨ ∃ slot ∈ slots, ∃ pending ∈ slot, pending.seq = s := by
  induction slots generalizing partials with
  | nil => exact ⟨j, h, fun _ hs => hs, fun _ hs => .inl hs⟩
  | cons slot slots ih =>
    obtain ⟨i, hi, hsub, hseqs⟩ := ih h
    obtain ⟨i', hi', pending, hpending, hextend⟩ := seqs_extend hi
    refine ⟨i', hi', ?_, ?_⟩
    · intro s hs
      exact hsub (by rw [hextend]; exact List.mem_append_left _ hs)
    · intro s hs
      rcases hseqs s hs with hs | ⟨slot', hslot', hpends⟩
      · rw [hextend] at hs
        rcases List.mem_append.mp hs with hs | hs
        · exact .inl hs
        · exact .inr ⟨slot, by simp, pending, hpending, (List.mem_singleton.mp hs).symm⟩
      · exact .inr ⟨slot', by simp [hslot'], hpends⟩

private theorem seqs_combinations {state : JoinState} {index : Nat} {seq : Int} {frame : Frame}
    {j : Joined} (h : j ∈ state.combinations index seq frame) :
    seq ∈ j.seqs ∧ ∀ s ∈ j.seqs, s = seq ∨ state.Pends s := by
  obtain ⟨i, hi, hsub, hseqs⟩ := seqs_foldl_extend h
  obtain rfl := List.mem_singleton.mp hi
  refine ⟨hsub (by simp), fun s hs => ?_⟩
  rcases hseqs s hs with hs | ⟨slot, hslot, hpends⟩
  · exact .inl (List.mem_singleton.mp hs)
  · exact .inr ⟨slot, List.mem_of_mem_eraseIdx hslot, hpends⟩

theorem offer_of_combinations_nil {state : JoinState} {index : Nat} {seq : Int} {frame : Frame}
    (h : state.combinations index seq frame = []) :
    state.offer index seq frame = ([], state.hold index ⟨seq, frame⟩) := by
  unfold offer
  rw [h]

theorem offer_of_combinations_ne {state : JoinState} {index : Nat} {seq : Int} {frame : Frame}
    (h : state.combinations index seq frame ≠ []) :
    state.offer index seq frame =
      (state.combinations index seq frame,
        state.consume ((state.combinations index seq frame).flatMap Joined.seqs)) := by
  unfold offer
  split
  · next hnil => exact absurd hnil h
  · rfl

/-- An offer that completes no combination is held, any other consumes what it joined. -/
theorem offer_cases (state : JoinState) (index : Nat) (seq : Int) (frame : Frame) :
    state.offer index seq frame = ([], state.hold index ⟨seq, frame⟩) ∨
      state.offer index seq frame =
        (state.combinations index seq frame,
          state.consume ((state.combinations index seq frame).flatMap Joined.seqs)) := by
  unfold offer
  split
  · exact .inl rfl
  · exact .inr rfl

private theorem seqs_offer {state : JoinState} {index : Nat} {seq : Int} {frame : Frame}
    {j : Joined} (h : j ∈ (state.offer index seq frame).1) :
    seq ∈ j.seqs ∧ ∀ s ∈ j.seqs, s = seq ∨ state.Pends s := by
  rcases offer_cases state index seq frame with hoffer | hoffer
  · rw [hoffer] at h
    cases h
  · rw [hoffer] at h
    exact seqs_combinations h

private theorem pends_hold {state : JoinState} {index : Nat} {pending : Pending} {s : Int}
    (h : (state.hold index pending).Pends s) : state.Pends s ∨ s = pending.seq := by
  obtain ⟨slot, hslot, p, hp, rfl⟩ := h
  obtain ⟨i, hi⟩ := List.mem_iff_getElem?.mp hslot
  simp only [hold, List.getElem?_modify] at hi
  obtain ⟨slot', hslot', rfl⟩ := Option.map_eq_some_iff.mp hi
  have hmem : slot' ∈ state.slots := List.mem_of_getElem? hslot'
  split at hp
  · rcases List.mem_append.mp hp with hp | hp
    · exact .inl ⟨slot', hmem, p, hp, rfl⟩
    · exact .inr (congrArg Pending.seq (List.mem_singleton.mp hp))
  · exact .inl ⟨slot', hmem, p, hp, rfl⟩

private theorem pends_consume {state : JoinState} {seqs : List Int} {s : Int} :
    (state.consume seqs).Pends s ↔ state.Pends s ∧ s ∉ seqs := by
  constructor
  · rintro ⟨slot, hslot, p, hp, rfl⟩
    obtain ⟨slot', hslot', rfl⟩ := List.mem_map.mp hslot
    obtain ⟨hp, hnot⟩ := List.mem_filter.mp hp
    exact ⟨⟨slot', hslot', p, hp, rfl⟩, by simpa using hnot⟩
  · rintro ⟨⟨slot, hslot, p, hp, rfl⟩, hnot⟩
    exact ⟨_, List.mem_map.mpr ⟨slot, hslot, rfl⟩, p, List.mem_filter.mpr ⟨hp, by simpa using hnot⟩,
      rfl⟩

private theorem pends_offer {state : JoinState} {index : Nat} {seq : Int} {frame : Frame} {s : Int}
    (h : (state.offer index seq frame).2.Pends s) : state.Pends s ∨ s = seq := by
  rcases offer_cases state index seq frame with hoffer | hoffer
  · rw [hoffer] at h
    exact pends_hold h
  · rw [hoffer] at h
    exact .inl (pends_consume.mp h).1

private theorem not_pends_offer {state : JoinState} {index : Nat} {seq : Int} {frame : Frame}
    {j : Joined} {s : Int} (hj : j ∈ (state.offer index seq frame).1) (hs : s ∈ j.seqs) :
    ¬ (state.offer index seq frame).2.Pends s := by
  intro h
  rcases offer_cases state index seq frame with hoffer | hoffer
  · rw [hoffer] at hj
    cases hj
  · rw [hoffer] at hj h
    exact (pends_consume.mp h).2 (List.mem_flatMap.mpr ⟨j, hj, hs⟩)

theorem length_slots_offer (state : JoinState) (index : Nat) (seq : Int) (frame : Frame) :
    (state.offer index seq frame).2.slots.length = state.slots.length := by
  rcases offer_cases state index seq frame with hoffer | hoffer
  · simp [hoffer, hold]
  · simp [hoffer, consume]

private theorem offer_of_single {state : JoinState} (h : state.slots.length = 1) (seq : Int)
    (frame : Frame) : (state.offer 0 seq frame).1 = [⟨frame, [seq]⟩] := by
  have hcombinations : state.combinations 0 seq frame = [⟨frame, [seq]⟩] := by
    have hnone : state.slots.eraseIdx 0 = [] := by
      apply List.eq_nil_of_length_eq_zero
      rw [List.length_eraseIdx_of_lt (by omega)]
      omega
    rw [combinations, hnone]
    rfl
  unfold offer
  rw [hcombinations]

private theorem extend_of_only_self {slot : List Pending} {seq : Int} (frame : Frame)
    (hself : ∀ pending ∈ slot, pending.seq = seq) : extend [⟨frame, [seq]⟩] slot = [] := by
  rw [List.eq_nil_iff_forall_not_mem]
  intro j hj
  obtain ⟨i, hi, hj⟩ := List.mem_flatMap.mp hj
  obtain ⟨pending, hpending, hextended⟩ := List.mem_filterMap.mp hj
  obtain rfl := List.mem_singleton.mp hi
  simp [extendWith?, hself pending hpending] at hextended

private theorem foldl_extend_nil (slots : List (List Pending)) : slots.foldl extend [] = [] := by
  induction slots with
  | nil => rfl
  | cons slot slots ih => exact ih

private theorem offer_of_only_self (state : JoinState) (index : Nat) {seq : Int}
    (hlength : 2 ≤ state.slots.length) (hself : ∀ s, state.Pends s → s = seq) (frame : Frame) :
    (state.offer index seq frame).1 = [] := by
  have hcombinations : state.combinations index seq frame = [] := by
    unfold combinations
    cases hslots : state.slots.eraseIdx index with
    | nil =>
      have hnil := congrArg List.length hslots
      rw [List.length_eraseIdx, List.length_nil] at hnil
      split at hnil <;> omega
    | cons slot slots =>
      have hslot : slot ∈ state.slots := by
        apply List.mem_of_mem_eraseIdx
        rw [hslots]
        exact List.mem_cons_self
      have honly : ∀ pending ∈ slot, pending.seq = seq := fun pending hpending =>
        hself _ ⟨slot, hslot, pending, hpending, rfl⟩
      rw [List.foldl_cons, extend_of_only_self frame honly]
      exact foldl_extend_nil slots
  unfold offer
  rw [hcombinations]

end JoinState

theorem offerSlots_cons (action : ActionId) (record : Record) (slot : Nat) (p : Pattern)
    (rest : List Pattern) (state : JoinState) :
    offerSlots action record slot (p :: rest) state =
      match p.unify? action record.input record.output with
      | none => offerSlots action record (slot + 1) rest state
      | some frame =>
        let offered := state.offer slot record.seq frame
        let later := offerSlots action record (slot + 1) rest offered.2
        (offered.1 ++ later.1, later.2) := by
  cases hunify : p.unify? action record.input record.output with
  | none => simp only [offerSlots, hunify]
  | some frame => simp only [offerSlots, hunify]

section Slots

variable {action : ActionId} {record : Record}

theorem pends_offerSlots {slot : Nat} {patterns : List Pattern} {state : JoinState} {s : Int}
    (h : (offerSlots action record slot patterns state).2.Pends s) :
    state.Pends s ∨ s = record.seq := by
  induction patterns generalizing slot state with
  | nil => exact .inl h
  | cons p rest ih =>
    rw [offerSlots_cons] at h
    split at h
    · exact ih h
    · rcases ih h with hbefore | hown
      · exact JoinState.pends_offer hbefore
      · exact .inr hown

theorem seqs_offerSlots {slot : Nat} {patterns : List Pattern} {state : JoinState} {j : Joined}
    (h : j ∈ (offerSlots action record slot patterns state).1) :
    record.seq ∈ j.seqs ∧ ∀ s ∈ j.seqs, s = record.seq ∨ state.Pends s := by
  induction patterns generalizing slot state with
  | nil => cases h
  | cons p rest ih =>
    rw [offerSlots_cons] at h
    split at h
    · exact ih h
    · rcases List.mem_append.mp h with hnow | hlater
      · exact JoinState.seqs_offer hnow
      · obtain ⟨hown, hseqs⟩ := ih hlater
        refine ⟨hown, fun s hs => ?_⟩
        rcases hseqs s hs with rfl | hpends
        · exact .inl rfl
        · exact (JoinState.pends_offer hpends).symm

theorem not_pends_offerSlots {slot : Nat} {patterns : List Pattern} {state : JoinState} {j : Joined}
    {s : Int} (hj : j ∈ (offerSlots action record slot patterns state).1) (hs : s ∈ j.seqs)
    (hother : s ≠ record.seq) : ¬ (offerSlots action record slot patterns state).2.Pends s := by
  induction patterns generalizing slot state with
  | nil => cases hj
  | cons p rest ih =>
    rw [offerSlots_cons] at hj ⊢
    split at hj
    · exact ih hj
    · rcases List.mem_append.mp hj with hnow | hlater
      · intro h
        rcases pends_offerSlots h with hpends | hown
        · exact JoinState.not_pends_offer hnow hs hpends
        · exact hother hown
      · exact ih hlater

theorem offerSlots_of_no_match {slot : Nat} {patterns : List Pattern} {state : JoinState}
    (h : ∀ p ∈ patterns, p.unify? action record.input record.output = none) :
    offerSlots action record slot patterns state = ([], state) := by
  induction patterns generalizing slot with
  | nil => rfl
  | cons p rest ih =>
    rw [offerSlots_cons, h p (by simp)]
    exact ih fun p' hp' => h p' (by simp [hp'])

theorem length_slots_offerSlots (slot : Nat) (patterns : List Pattern) (state : JoinState) :
    (offerSlots action record slot patterns state).2.slots.length = state.slots.length := by
  induction patterns generalizing slot state with
  | nil => rfl
  | cons p rest ih =>
    rw [offerSlots_cons]
    split
    · exact ih _ _
    · exact (ih _ _).trans (JoinState.length_slots_offer _ _ _ _)

theorem offerSlots_of_single {p : Pattern} {state : JoinState} {frame : Frame}
    (hlength : state.slots.length = 1)
    (hunify : p.unify? action record.input record.output = some frame) :
    (offerSlots action record 0 [p] state).1 = [⟨frame, [record.seq]⟩] := by
  rw [offerSlots_cons, hunify]
  simp only [offerSlots, List.append_nil]
  exact JoinState.offer_of_single hlength record.seq frame

theorem offerSlots_of_only_self {slot : Nat} {patterns : List Pattern} {state : JoinState}
    (hlength : 2 ≤ state.slots.length) (hself : ∀ s, state.Pends s → s = record.seq) :
    (offerSlots action record slot patterns state).1 = [] := by
  induction patterns generalizing slot state with
  | nil => rfl
  | cons p rest ih =>
    rw [offerSlots_cons]
    split
    · exact ih hlength hself
    · next frame _ =>
      have hnow := state.offer_of_only_self slot hlength hself frame
      have hlater : (offerSlots action record (slot + 1) rest
          (state.offer slot record.seq frame).2).1 = [] := by
        apply ih
        · rw [JoinState.length_slots_offer]
          exact hlength
        · intro s hs
          exact (JoinState.pends_offer hs).elim (hself s) id
      simp only [hnow, hlater, List.append_nil]

theorem not_pends_of_count_le_one {slot : Nat} {patterns : List Pattern} {state : JoinState}
    (hcount : (patterns.countP fun p =>
      (p.unify? action record.input record.output).isSome) ≤ 1)
    (hjoined : (offerSlots action record slot patterns state).1 ≠ []) :
    ¬ (offerSlots action record slot patterns state).2.Pends record.seq := by
  induction patterns generalizing slot state with
  | nil => exact absurd rfl hjoined
  | cons p rest ih =>
    rw [List.countP_cons] at hcount
    rw [offerSlots_cons] at hjoined ⊢
    cases hunify : p.unify? action record.input record.output with
    | none =>
      rw [hunify] at hcount hjoined
      exact ih (by simpa using hcount) hjoined
    | some frame =>
      rw [hunify] at hcount hjoined
      have hrest :
          rest.countP (fun p => (p.unify? action record.input record.output).isSome) = 0 := by
        simp only [Option.isSome_some, if_true] at hcount
        omega
      have hnone : ∀ p ∈ rest, p.unify? action record.input record.output = none := by
        intro p hp
        have := List.countP_eq_zero.mp hrest p hp
        simpa using this
      simp only [offerSlots_of_no_match hnone, List.append_nil] at hjoined ⊢
      obtain ⟨j, hj⟩ := List.exists_mem_of_ne_nil _ hjoined
      exact JoinState.not_pends_offer hj (JoinState.seqs_offer hj).1

end Slots

end ConceptSync
