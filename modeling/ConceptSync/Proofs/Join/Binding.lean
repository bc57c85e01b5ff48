import ConceptSync.Proofs.Frame.Algebra
import ConceptSync.Proofs.Join.Made

set_option autoImplicit false
set_option relaxedAutoImplicit false

/-!
Which variables a joined frame binds. A pattern binds its own variables and no others, and joining
adds up what the patterns bind, so a firing of a rule has the variables of all its patterns.
-/

namespace ConceptSync

def Frame.Binds (f : Frame) (vars : List Var) : Prop := ∀ v, f.contains v = true ↔ v ∈ vars

private theorem Frame.contains_overlayAll (f : Frame) (gs : List Frame) (v : Var) :
    (f.overlayAll gs).contains v = true ↔ f.contains v = true ∨ ∃ g ∈ gs, g.contains v = true := by
  induction gs generalizing f with
  | nil => simp [overlayAll]
  | cons g gs ih =>
    have hfirst : f.overlayAll (g :: gs) = (f.overlay g).overlayAll gs := rfl
    rw [hfirst, ih, contains_overlay, Bool.or_eq_true, List.exists_mem_cons_iff, or_assoc]

private theorem Frame.Covers.contains {f g : Frame} (h : f.Covers g) {v : Var}
    (hv : g.contains v = true) : f.contains v = true := by
  obtain ⟨b, hb⟩ := Option.isSome_iff_exists.mp hv
  obtain ⟨a, ha, _⟩ := h v b hb
  rw [Table.contains, ha, Option.isSome_some]

private theorem Pattern.binds_unify? {p : Pattern} {action : ActionId} {input output : Payload}
    {f : Frame} (h : p.unify? action input output = some f) : f.Binds p.vars := by
  obtain ⟨⟨_, _, hinput, houtput, _⟩, hframe⟩ := unify?_eq_some_iff_bindings.mp h
  have hkeys : Table.keys (p.bindings input output) = p.vars := by
    rw [Table.keys, bindings, List.map_append, Template.keys_bindings hinput,
      Template.keys_bindings houtput, vars]
  intro v
  rw [← hframe, Frame.contains_overlay, Bool.or_eq_true, ← hkeys, ← Table.isSome_get?]
  exact or_iff_right Bool.false_ne_true

variable {admits : ActionId → Payload → Payload → Prop} {patterns : List Pattern}

private theorem Pattern.Makes.binds {p : Pattern} {f : Frame} (h : p.Makes admits f) :
    f.Binds p.vars := by
  obtain ⟨_, _, _, _, hunify⟩ := h
  exact p.binds_unify? hunify

namespace JoinState

variable {state : JoinState} {index : Nat} {p : Pattern} {frame : Frame}

private theorem contains_combinations (h : state.MadeBy admits patterns) {seq : Int} {j : Joined}
    (hj : j ∈ state.combinations index seq frame) {v : Var} (hv : j.frame.contains v = true) :
    frame.contains v = true ∨
      ∃ slot ∈ state.slots, ∃ pending ∈ slot, pending.frame.contains v = true := by
  obtain ⟨s, hs, _, hjoined⟩ := h.frame_combinations hj
  rw [hjoined] at hv
  rcases (Frame.contains_overlayAll _ _ v).mp hv with hown | ⟨g, hg, hbound⟩
  · exact .inl hown
  · obtain ⟨pending, hpending, rfl⟩ := List.mem_map.mp hg
    obtain ⟨slot, hslot, hmem⟩ := exists_mem_of_selections hs pending hpending
    exact .inr ⟨slot, List.mem_of_mem_eraseIdx hslot, pending, hmem, hbound⟩

namespace MadeBy

private theorem binds_offer (h : state.MadeBy admits patterns) (hp : patterns[index]? = some p)
    (hframe : p.Makes admits frame) (seq : Int) :
    ∀ j ∈ (state.offer index seq frame).1, j.frame.Binds (patterns.flatMap Pattern.vars) := by
  intro j hj v
  constructor
  · intro hv
    rw [offer_fst] at hj
    rcases contains_combinations h hj hv with hown | ⟨slot, hslot, pending, hpending, hbound⟩
    · exact List.mem_flatMap.mpr ⟨p, List.mem_of_getElem? hp, (hframe.binds v).mp hown⟩
    · obtain ⟨hlength, hslots⟩ := List.forall₂_iff_get.mp h
      obtain ⟨i, hi, rfl⟩ := List.mem_iff_getElem.mp hslot
      have hmakes := hslots i (hlength ▸ hi) hi pending hpending
      exact List.mem_flatMap.mpr ⟨_, List.get_mem _ _, (hmakes.binds v).mp hbound⟩
  · intro hv
    obtain ⟨q, hq, hv⟩ := List.mem_flatMap.mp hv
    obtain ⟨g, hmakes, hcovers⟩ := (h.offer hp hframe seq).1 j hj q hq
    exact hcovers.contains ((hmakes.binds v).mpr hv)

theorem binds_offered (h : state.MadeBy admits patterns) {action : ActionId} {record : Record}
    (hadmits : admits action record.input record.output) {slot : Nat} {rest : List Pattern}
    (hrest : ∀ i q, rest[i]? = some q → patterns[slot + i]? = some q) :
    ∀ j ∈ (offerSlots action record slot rest state).1,
      j.frame.Binds (patterns.flatMap Pattern.vars) := by
  induction rest generalizing slot state with
  | nil => simp [offerSlots]
  | cons p rest ih =>
    have hlater : ∀ i q, rest[i]? = some q → patterns[slot + 1 + i]? = some q := by
      intro i q hq
      rw [Nat.add_assoc, Nat.add_comm 1 i]
      exact hrest (i + 1) q hq
    rw [offerSlots_cons]
    split
    · exact ih h hlater
    · next frame hunify =>
      have hmakes : p.Makes admits frame := ⟨_, _, _, hadmits, hunify⟩
      have hstate := (h.offer (hrest 0 p rfl) hmakes record.seq).2
      intro j hj
      rcases List.mem_append.mp hj with hnow | hjoined
      · exact h.binds_offer (hrest 0 p rfl) hmakes record.seq j hnow
      · exact ih hstate hlater j hjoined

end MadeBy

end JoinState

end ConceptSync
