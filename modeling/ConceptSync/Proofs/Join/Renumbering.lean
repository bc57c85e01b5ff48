import Mathlib.Data.List.Forall2
import ConceptSync.Proofs.Join.Offer

set_option autoImplicit false
set_option relaxedAutoImplicit false

/-!
Joining looks at sequence numbers only to tell completions apart. Where two numberings tell the same
completions apart, whatever is offered joins the same frames and leaves the same frames pending.
-/

namespace ConceptSync

open Relator

variable {R : Int → Int → Prop}

structure Pending.Alike (R : Int → Int → Prop) (p p' : Pending) : Prop where
  seq : R p.seq p'.seq
  frame : p.frame = p'.frame

structure Joined.Alike (R : Int → Int → Prop) (j j' : Joined) : Prop where
  frame : j.frame = j'.frame
  seqs : List.Forall₂ R j.seqs j'.seqs

def JoinState.Alike (R : Int → Int → Prop) (state state' : JoinState) : Prop :=
  List.Forall₂ (List.Forall₂ (Pending.Alike R)) state.slots state'.slots

theorem JoinState.Alike.mono {S : Int → Int → Prop} (hsub : ∀ s s', R s s' → S s s')
    {state state' : JoinState} (h : state.Alike R state') : state.Alike S state' :=
  List.Forall₂.imp (fun _ _ hslot =>
    List.Forall₂.imp (fun _ _ hp => ⟨hsub _ _ hp.seq, hp.frame⟩) hslot) h

theorem Joined.map_frame_of_alike {js js' : List Joined}
    (h : List.Forall₂ (Joined.Alike R) js js') : js.map Joined.frame = js'.map Joined.frame := by
  induction h with
  | nil => rfl
  | cons hj _ ih => simp only [List.map_cons, hj.frame, ih]

namespace JoinState

theorem alike_empty (R : Int → Int → Prop) (patterns : Nat) :
    (empty patterns).Alike R (empty patterns) :=
  List.forall₂_same.mpr fun slot hslot => by
    rw [List.eq_of_mem_replicate hslot]
    exact .nil

private theorem forall₂_modify {α : Type} {S : α → α → Prop} {f g : α → α}
    (hfg : ∀ a b, S a b → S (f a) (g b)) {as bs : List α} (h : List.Forall₂ S as bs) (i : Nat) :
    List.Forall₂ S (as.modify i f) (bs.modify i g) := by
  induction h generalizing i with
  | nil => cases i <;> exact .nil
  | cons hab hrest ih =>
    cases i with
    | zero => exact .cons (hfg _ _ hab) hrest
    | succ i => exact .cons hab (ih i)

section

variable {state state' : JoinState} {seq seq' : Int}

private theorem extendWith_alike (hR : BiUnique R) {j j' : Joined} (hj : j.Alike R j')
    {p p' : Pending} (hp : p.Alike R p') :
    Option.Rel (Joined.Alike R) (extendWith? j p) (extendWith? j' p') := by
  have hmem : p.seq ∈ j.seqs ↔ p'.seq ∈ j'.seqs := List.rel_mem hR hp.seq hj.seqs
  unfold extendWith?
  by_cases hself : p.seq ∈ j.seqs
  · rw [if_pos hself, if_pos (hmem.mp hself)]
    exact .none
  · rw [if_neg hself, if_neg (mt hmem.mpr hself), hj.frame, hp.frame]
    cases j'.frame.merge? p'.frame with
    | none => exact .none
    | some frame => exact .some ⟨rfl, List.rel_append hj.seqs (.cons hp.seq .nil)⟩

private theorem extend_alike (hR : BiUnique R) :
    (List.Forall₂ (Joined.Alike R) ⇒ List.Forall₂ (Pending.Alike R) ⇒
      List.Forall₂ (Joined.Alike R)) extend extend :=
  fun _ _ hjs _ _ hslot => List.rel_flatMap hjs fun _ _ hj =>
    List.rel_filterMap (fun _ _ hp => extendWith_alike hR hj hp) hslot

private theorem combinations_alike (hR : BiUnique R) (h : state.Alike R state') (index : Nat)
    (hseq : R seq seq') (frame : Frame) :
    List.Forall₂ (Joined.Alike R) (state.combinations index seq frame)
      (state'.combinations index seq' frame) := by
  unfold combinations
  rw [List.eraseIdx_eq_take_drop_succ, List.eraseIdx_eq_take_drop_succ]
  have hfirst : List.Forall₂ (Joined.Alike R) [⟨frame, [seq]⟩] [⟨frame, [seq']⟩] :=
    .cons ⟨rfl, .cons hseq .nil⟩ .nil
  have hslots := List.rel_append (List.forall₂_take index h) (List.forall₂_drop (index + 1) h)
  exact List.rel_foldl (extend_alike hR) hfirst hslots

private theorem hold_alike (h : state.Alike R state') (index : Nat) (hseq : R seq seq')
    (frame : Frame) :
    (state.hold index ⟨seq, frame⟩).Alike R (state'.hold index ⟨seq', frame⟩) := by
  have hnew : Pending.Alike R ⟨seq, frame⟩ ⟨seq', frame⟩ := ⟨hseq, rfl⟩
  exact forall₂_modify (fun _ _ hslot => List.rel_append hslot (.cons hnew .nil)) h index

private theorem consume_alike (hR : BiUnique R) (h : state.Alike R state') {seqs seqs' : List Int}
    (hseqs : List.Forall₂ R seqs seqs') : (state.consume seqs).Alike R (state'.consume seqs') := by
  refine List.rel_map (fun _ _ hslot => List.rel_filter (fun p p' hp => ?_) hslot) h
  have hmem : p.seq ∈ seqs ↔ p'.seq ∈ seqs' := List.rel_mem hR hp.seq hseqs
  simp [hmem]

private theorem offer_alike (hR : BiUnique R) (h : state.Alike R state') (index : Nat)
    (hseq : R seq seq') (frame : Frame) :
    List.Forall₂ (Joined.Alike R) (state.offer index seq frame).1
      (state'.offer index seq' frame).1 ∧
    (state.offer index seq frame).2.Alike R (state'.offer index seq' frame).2 := by
  have hjoined := combinations_alike hR h index hseq frame
  unfold offer
  generalize state.combinations index seq frame = js at hjoined ⊢
  generalize state'.combinations index seq' frame = js' at hjoined ⊢
  cases hjoined with
  | nil => exact ⟨.nil, hold_alike h index hseq frame⟩
  | cons hj hrest =>
    have hseqs := List.rel_flatMap (.cons hj hrest) fun _ _ hj => Joined.Alike.seqs hj
    exact ⟨.cons hj hrest, consume_alike hR h hseqs⟩

end

end JoinState

theorem offerSlots_alike (hR : BiUnique R) (action : ActionId) {record record' : Record}
    (hseq : R record.seq record'.seq) (hinput : record.input = record'.input)
    (houtput : record.output = record'.output) (slot : Nat) (patterns : List Pattern)
    {state state' : JoinState} (h : state.Alike R state') :
    List.Forall₂ (Joined.Alike R) (offerSlots action record slot patterns state).1
      (offerSlots action record' slot patterns state').1 ∧
    (offerSlots action record slot patterns state).2.Alike R
      (offerSlots action record' slot patterns state').2 := by
  induction patterns generalizing slot state state' with
  | nil => exact ⟨.nil, h⟩
  | cons p rest ih =>
    rw [offerSlots_cons, offerSlots_cons, hinput, houtput]
    cases p.unify? action record'.input record'.output with
    | none => exact ih (slot + 1) h
    | some frame =>
      obtain ⟨hnow, hleft⟩ := JoinState.offer_alike hR h slot hseq frame
      obtain ⟨hlater, hpending⟩ := ih (slot + 1) hleft
      exact ⟨List.rel_append hnow hlater, hpending⟩

end ConceptSync
