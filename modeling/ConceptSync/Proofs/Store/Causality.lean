import Mathlib.Logic.Relation
import ConceptSync.Proofs.Store.Sequence

set_option autoImplicit false
set_option relaxedAutoImplicit false

/-!
The causal order of records that were added one by one, each a root or caused by one that was there.
Such records form a forest: a record has one parent, which comes before it, and what causes a new
record is its parent and everything that causes that.
-/

namespace ConceptSync

/-- A record is among the causes of another: its parent, the parent's parent and so on. -/
def Causes (records : List Record) : Record → Record → Prop :=
  Relation.TransGen fun a r => a ∈ records ∧ r ∈ records ∧ r.parent = some a.seq

/-- Records that were added one after the other, each from outside or caused by an earlier one. -/
inductive Grown : List Record → Prop
  | nil : Grown []
  | root {records : List Record} {r : Record} : Grown records →
      (∀ e ∈ records, e.seq < r.seq) → r.IsRoot → Grown (records ++ [r])
  | child {records : List Record} {cause r : Record} : Grown records →
      (∀ e ∈ records, e.seq < r.seq) → cause ∈ records → r.ChildOf cause → Grown (records ++ [r])

namespace Causes

variable {records : List Record} {a b r : Record}

theorem left_mem (h : Causes records a r) : a ∈ records := by
  induction h with
  | single h => exact h.1
  | tail _ _ ih => exact ih

theorem right_mem (h : Causes records a r) : r ∈ records := by
  cases h with
  | single h => exact h.2.1
  | tail _ h => exact h.2.1

private theorem mono {later : List Record} (hsub : ∀ e ∈ records, e ∈ later)
    (h : Causes records a r) :
    Causes later a r :=
  Relation.TransGen.mono (fun _ _ ⟨ha, hr, hparent⟩ => ⟨hsub _ ha, hsub _ hr, hparent⟩) _ _ h

theorem snoc {new : Record} (h : Causes records a r) : Causes (records ++ [new]) a r :=
  h.mono fun _ he => List.mem_append_left _ he

end Causes

namespace Grown

variable {records : List Record}

theorem increasing (h : Grown records) : records.Pairwise fun a b => a.seq < b.seq := by
  have hsnoc : ∀ {records : List Record} {r : Record},
      (records.Pairwise fun a b => a.seq < b.seq) → (∀ e ∈ records, e.seq < r.seq) →
      (records ++ [r]).Pairwise fun a b => a.seq < b.seq := by
    intro records r hbefore hlt
    refine List.pairwise_append.mpr ⟨hbefore, List.pairwise_singleton _ _, fun e he b hb => ?_⟩
    rw [List.mem_singleton.mp hb]
    exact hlt e he
  induction h with
  | nil => exact .nil
  | root _ hlt _ ih => exact hsnoc ih hlt
  | child _ hlt _ _ ih => exact hsnoc ih hlt

theorem eq_of_seq (h : Grown records) {a b : Record} (ha : a ∈ records) (hb : b ∈ records)
    (hseq : a.seq = b.seq) : a = b := by
  have hnodup : (records.map Record.seq).Nodup :=
    List.pairwise_map.mpr (h.increasing.imp fun hlt => Int.ne_of_lt hlt)
  exact List.inj_on_of_nodup_map hnodup ha hb hseq

theorem cause_of_parent (h : Grown records) {r : Record} {seq : Int} (hr : r ∈ records)
    (hparent : r.parent = some seq) :
    ∃ cause ∈ records, cause.seq = seq ∧ cause.seq < r.seq ∧ r.ChildOf cause := by
  induction h with
  | nil => cases hr
  | root _ _ hroot ih =>
    rcases List.mem_append.mp hr with hold | hnew
    · obtain ⟨cause, hcause, hrest⟩ := ih hold
      exact ⟨cause, List.mem_append_left _ hcause, hrest⟩
    · rw [List.mem_singleton.mp hnew, hroot.parent] at hparent
      cases hparent
  | child _ hlt hcause hchild ih =>
    rcases List.mem_append.mp hr with hold | hnew
    · obtain ⟨cause, hcause, hrest⟩ := ih hold
      exact ⟨cause, List.mem_append_left _ hcause, hrest⟩
    · obtain rfl := List.mem_singleton.mp hnew
      rw [hchild.parent] at hparent
      exact ⟨_, List.mem_append_left _ hcause, Option.some.inj hparent, hlt _ hcause, hchild⟩

private theorem isRoot_of_parent (h : Grown records) {r : Record} (hr : r ∈ records)
    (hparent : r.parent = none) : r.IsRoot := by
  induction h with
  | nil => cases hr
  | root _ _ hroot ih =>
    rcases List.mem_append.mp hr with hold | hnew
    · exact ih hold
    · exact List.mem_singleton.mp hnew ▸ hroot
  | child _ _ _ hchild ih =>
    rcases List.mem_append.mp hr with hold | hnew
    · exact ih hold
    · rw [List.mem_singleton.mp hnew, hchild.parent] at hparent
      cases hparent

section Snoc

variable {new : Record}

private theorem step_snoc (h : Grown records) (hlt : ∀ e ∈ records, e.seq < new.seq) {a r : Record}
    (ha : a ∈ records ++ [new]) (hr : r ∈ records ++ [new]) (hparent : r.parent = some a.seq)
    (hnew : ∀ seq, new.parent = some seq → seq < new.seq) :
    a ∈ records ∧ (r ∈ records ∨ r = new) := by
  have hr : r ∈ records ∨ r = new := by simpa using hr
  refine ⟨?_, hr⟩
  rcases List.mem_append.mp ha with hold | hself
  · exact hold
  · obtain rfl := List.mem_singleton.mp hself
    rcases hr with hold | rfl
    · obtain ⟨_, _, hseq, hbefore, _⟩ := h.cause_of_parent hold hparent
      have := hlt r hold
      omega
    · exact absurd (hnew _ hparent) (Int.lt_irrefl _)

theorem causes_snoc_root (h : Grown records) (hlt : ∀ e ∈ records, e.seq < new.seq)
    (hroot : new.IsRoot) {a r : Record} :
    Causes (records ++ [new]) a r ↔ Causes records a r := by
  refine ⟨fun hcauses => ?_, Causes.snoc⟩
  have hstep : ∀ {a r : Record}, a ∈ records ++ [new] ∧ r ∈ records ++ [new] ∧
      r.parent = some a.seq → a ∈ records ∧ r ∈ records ∧ r.parent = some a.seq := by
    rintro a r ⟨ha, hr, hparent⟩
    obtain ⟨ha, hr | rfl⟩ := step_snoc h hlt ha hr hparent (by simp [hroot.parent])
    · exact ⟨ha, hr, hparent⟩
    · rw [hroot.parent] at hparent
      cases hparent
  exact Relation.TransGen.mono (fun _ _ => hstep) _ _ hcauses

theorem causes_snoc_child (h : Grown records) (hlt : ∀ e ∈ records, e.seq < new.seq)
    {cause : Record} (hcause : cause ∈ records) (hchild : new.ChildOf cause) {a r : Record} :
    Causes (records ++ [new]) a r ↔
      Causes records a r ∨ (r = new ∧ (a = cause ∨ Causes records a cause)) := by
  have hparent : new.parent = some cause.seq := hchild.parent
  have hnew : new ∉ records := fun hmem => Int.lt_irrefl _ (hlt new hmem)
  have hstep : ∀ {a r : Record}, a ∈ records ++ [new] ∧ r ∈ records ++ [new] ∧
      r.parent = some a.seq →
      (a ∈ records ∧ r ∈ records ∧ r.parent = some a.seq) ∨ (r = new ∧ a = cause) := by
    rintro a r ⟨ha, hr, hstep⟩
    obtain ⟨hold, hr | rfl⟩ := step_snoc h hlt ha hr hstep (by simp [hparent, hlt cause hcause])
    · exact .inl ⟨hold, hr, hstep⟩
    · rw [hparent] at hstep
      exact .inr ⟨rfl, h.eq_of_seq hold hcause (Option.some.inj hstep).symm⟩
  constructor
  · intro hcauses
    induction hcauses with
    | single hlast =>
      rcases hstep hlast with hold | ⟨rfl, rfl⟩
      · exact .inl (.single hold)
      · exact .inr ⟨rfl, .inl rfl⟩
    | tail _ hlast ih =>
      rcases ih with hbefore | ⟨rfl, _⟩
      · rcases hstep hlast with hold | ⟨rfl, rfl⟩
        · exact .inl (.tail hbefore hold)
        · exact .inr ⟨rfl, .inr hbefore⟩
      · rcases hstep hlast with hold | ⟨_, rfl⟩
        · exact absurd hold.1 hnew
        · exact absurd hcause hnew
  · rintro (hold | ⟨rfl, hbefore⟩)
    · exact hold.snoc
    · have hlast : Causes (records ++ [r]) cause r :=
        .single ⟨List.mem_append_left _ hcause, by simp, hparent⟩
      rcases hbefore with rfl | hbefore
      · exact hlast
      · exact hbefore.snoc.trans hlast

end Snoc

theorem isRoot_of_depth (h : Grown records) {r : Record} (hr : r ∈ records) (hdepth : r.depth = 0) :
    r.IsRoot := by
  cases hparent : r.parent with
  | none => exact h.isRoot_of_parent hr hparent
  | some seq =>
    obtain ⟨_, _, _, _, hchild⟩ := h.cause_of_parent hr hparent
    have := hchild.depth
    omega

theorem cause_of_depth (h : Grown records) {r : Record} (hr : r ∈ records) (hdepth : r.depth ≠ 0) :
    ∃ cause ∈ records, cause.seq < r.seq ∧ r.ChildOf cause := by
  cases hparent : r.parent with
  | none => exact absurd (h.isRoot_of_parent hr hparent).depth hdepth
  | some seq =>
    obtain ⟨cause, hcause, _, hlt, hchild⟩ := h.cause_of_parent hr hparent
    exact ⟨cause, hcause, hlt, hchild⟩

theorem top_of_depth (h : Grown records) {r : Record} (hr : r ∈ records) (hdepth : r.depth ≠ 0) :
    ∃ top ∈ records, top.depth = 0 ∧ Causes records top r ∧ r.causedBy = some top.seq := by
  -- up the causes, on the depth
  induction hn : r.depth generalizing r with
  | zero => exact absurd hn hdepth
  | succ n ih =>
    obtain ⟨cause, hcause, _, hchild⟩ := h.cause_of_depth hr hdepth
    have hstep : Causes records cause r := .single ⟨hcause, hr, hchild.parent⟩
    have hcauseDepth := hchild.depth
    by_cases htop : cause.depth = 0
    · refine ⟨cause, hcause, htop, hstep, ?_⟩
      rw [hchild.causedBy, (h.isRoot_of_depth hcause htop).causedBy, Option.getD_none]
    · obtain ⟨top, hmem, hzero, hcauses, hnamed⟩ := ih hcause htop (by omega)
      refine ⟨top, hmem, hzero, hcauses.trans hstep, ?_⟩
      rw [hchild.causedBy, hnamed, Option.getD_some]

end Grown

end ConceptSync
