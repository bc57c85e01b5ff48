import ConceptSync.Proofs.Store.Causality

set_option autoImplicit false
set_option relaxedAutoImplicit false

/-!
Causal trees that are read off the labels of their records. A label names the record at the top of a
chain, so it tells the descendants of a record from outside; of any other record it tells nothing,
and its tree is read as if it had caused nothing.
-/

namespace ConceptSync

def Record.Linked (records : List Record) (r : Record) : Prop :=
  r.parent = none ∧ r.causedBy = none ∨ ∃ cause ∈ records, cause.seq < r.seq ∧
    r.parent = some cause.seq ∧ r.causedBy = some (cause.causedBy.getD cause.seq)

private theorem Record.Linked.snoc {records : List Record} {r new : Record} (h : r.Linked records) :
    r.Linked (records ++ [new]) := by
  rcases h with houtside | ⟨cause, hcause, hrest⟩
  · exact .inl houtside
  · exact .inr ⟨cause, List.mem_append_left _ hcause, hrest⟩

namespace RecordStore

def Appended (s : RecordStore) : Prop :=
  ∃ calls : List Call, (∀ run, .forgetRun run ∉ calls) ∧ calls.foldl after .empty = s

/-- The tree that is read for a record is in sequence and has the record and everything it caused,
at any distance. -/
def ShowsTree (s : RecordStore) (r : Record) : Prop :=
  (s.tree r.seq).Pairwise (fun a b => a.seq < b.seq) ∧
    ∀ e, e ∈ s.tree r.seq ↔ e = r ∨ Causes s.records r e

variable {s : RecordStore}

private theorem linked_insert (h : ∀ r ∈ s.records, r.Linked s.records) {d : Draft} {run : String}
    {parent causedBy : Option Int}
    (hnew : (s.insert d run parent causedBy).1.Linked s.records) :
    ∀ r ∈ (s.insert d run parent causedBy).2.records,
      r.Linked (s.insert d run parent causedBy).2.records := by
  intro r hr
  rcases List.mem_append.mp hr with hold | hlast
  · exact (h r hold).snoc
  · rw [List.mem_singleton.mp hlast]
    exact hnew.snoc

private theorem linked_after (hle : ∀ r ∈ s.records, r.seq ≤ s.latest)
    (h : ∀ r ∈ s.records, r.Linked s.records) {c : Call} (hc : ∀ run, c ≠ .forgetRun run) :
    ∀ r ∈ (s.after c).records, r.Linked (s.after c).records := by
  cases c with
  | append d =>
    simp only [after, append]
    split
    · exact h
    · exact linked_insert h (.inl ⟨rfl, rfl⟩)
  | appendChild parent d =>
    simp only [after, appendChild]
    split
    · exact h
    · next cause hread =>
      have hcause : cause ∈ s.records := List.mem_of_find?_eq_some hread
      have hseq : cause.seq = parent := by simpa using List.find?_some hread
      have hlt : cause.seq < s.latest + 1 := Int.lt_add_one_of_le (hle cause hcause)
      exact linked_insert h (.inr ⟨cause, hcause, hlt, by rw [hseq]; rfl, rfl⟩)
  | forgetRun run => exact absurd rfl (hc run)
  | tick now => exact h

namespace Appended

theorem reachable (h : s.Appended) : s.Reachable := by
  obtain ⟨calls, _, hs⟩ := h
  exact ⟨calls, hs⟩

theorem linked (h : s.Appended) : ∀ r ∈ s.records, r.Linked s.records := by
  obtain ⟨calls, hkeep, rfl⟩ := h
  induction calls using List.reverseRecOn with
  | nil => exact List.forall_mem_nil _
  | append_singleton calls c ih =>
    rw [List.foldl_append]
    have hearlier : ∀ run, .forgetRun run ∉ calls :=
      fun run hmem => hkeep run (List.mem_append_left _ hmem)
    have hlast : ∀ run, c ≠ .forgetRun run := by
      rintro run rfl
      exact hkeep run (List.mem_append_right _ (List.mem_singleton.mpr rfl))
    exact linked_after (Reachable.seq_le ⟨calls, rfl⟩) (ih hearlier) hlast

variable {r e : Record}

theorem causedBy_of_outside (h : s.Appended) (hr : r ∈ s.records) (hparent : r.parent = none) :
    r.causedBy = none := by
  rcases h.linked r hr with ⟨_, hlabel⟩ | ⟨_, _, _, hcaused, _⟩
  · exact hlabel
  · rw [hparent] at hcaused
    cases hcaused

theorem causedBy_of_parent (h : s.Appended) (hr : r ∈ s.records) (he : e ∈ s.records)
    (hparent : e.parent = some r.seq) :
    r.seq < e.seq ∧ e.causedBy = some (r.causedBy.getD r.seq) := by
  rcases h.linked e he with ⟨hnone, _⟩ | ⟨cause, hcause, hlt, hcaused, hlabel⟩
  · rw [hparent] at hnone
    cases hnone
  · have hseq : cause.seq = r.seq := Option.some.inj (hcaused.symm.trans hparent)
    obtain rfl := h.reachable.eq_of_seq hcause hr hseq
    exact ⟨hlt, hlabel⟩

private theorem causedBy_of_causes (h : s.Appended) (hparent : r.parent = none)
    (hcauses : Causes s.records r e) : e.causedBy = some r.seq := by
  induction hcauses with
  | single hstep =>
    obtain ⟨hr, he, hcaused⟩ := hstep
    rw [(h.causedBy_of_parent hr he hcaused).2, h.causedBy_of_outside hr hparent, Option.getD_none]
  | tail _ hstep ih =>
    obtain ⟨hb, he, hcaused⟩ := hstep
    rw [(h.causedBy_of_parent hb he hcaused).2, ih, Option.getD_some]

private theorem causes_of_causedBy (h : s.Appended) (hr : r ∈ s.records) (he : e ∈ s.records)
    (hlabel : e.causedBy = some r.seq) : r.parent = none ∧ Causes s.records r e := by
  -- up the chain, whose sequence numbers decrease
  induction hn : e.seq.toNat using Nat.strongRecOn generalizing e with
  | ind n ih =>
    rcases h.linked e he with ⟨_, hnone⟩ | ⟨cause, hcause, hlt, hcaused, horigin⟩
    · rw [hlabel] at hnone
      cases hnone
    · have hstep : Causes s.records cause e := .single ⟨hcause, he, hcaused⟩
      rw [hlabel, Option.some.injEq] at horigin
      cases hup : cause.causedBy with
      | none =>
        rw [hup, Option.getD_none] at horigin
        obtain rfl := h.reachable.eq_of_seq hr hcause horigin
        rcases h.linked r hr with ⟨houtside, _⟩ | ⟨_, _, _, _, hsome⟩
        · exact ⟨houtside, hstep⟩
        · rw [hup] at hsome
          cases hsome
      | some top =>
        rw [hup, Option.getD_some] at horigin
        obtain ⟨k, hk, _⟩ := h.reachable.issued cause hcause
        obtain ⟨houtside, hcauses⟩ :=
          ih cause.seq.toNat (by omega) hcause (by rw [hup, horigin]) rfl
        exact ⟨houtside, hcauses.trans hstep⟩

private theorem causedBy_iff (h : s.Appended) (hr : r ∈ s.records) (he : e ∈ s.records) :
    e.causedBy = some r.seq ↔ r.parent = none ∧ Causes s.records r e :=
  ⟨h.causes_of_causedBy hr he, fun ⟨hparent, hcauses⟩ => h.causedBy_of_causes hparent hcauses⟩

private theorem mem_tree (h : s.Appended) (hr : r ∈ s.records) :
    e ∈ s.tree r.seq ↔ e = r ∨ r.parent = none ∧ Causes s.records r e := by
  simp only [tree, List.mem_filter, Bool.or_eq_true, beq_iff_eq]
  constructor
  · rintro ⟨he, hseq | hlabel⟩
    · exact .inl (h.reachable.eq_of_seq he hr hseq)
    · exact .inr ((h.causedBy_iff hr he).mp hlabel)
  · rintro (rfl | ⟨hparent, hcauses⟩)
    · exact ⟨hr, .inl rfl⟩
    · exact ⟨hcauses.right_mem, .inr (h.causedBy_of_causes hparent hcauses)⟩

private theorem tree_of_inner (h : s.Appended) (hr : r ∈ s.records) (hparent : r.parent ≠ none) :
    s.tree r.seq = [r] := by
  have hsorted : (s.tree r.seq).Nodup :=
    (h.reachable.increasing.filter _).imp fun hlt heq => Int.ne_of_lt hlt (congrArg Record.seq heq)
  have honly : ∀ e, e ∈ s.tree r.seq ↔ e ∈ [r] := by
    intro e
    rw [h.mem_tree hr, List.mem_singleton]
    exact or_iff_left fun ⟨hnone, _⟩ => hparent hnone
  exact List.perm_singleton.mp
    ((List.perm_ext_iff_of_nodup hsorted (List.nodup_singleton _)).mpr honly)

private theorem not_causes_of_children (hchildren : s.children r.seq = []) :
    ¬Causes s.records r e := by
  intro hcauses
  obtain ⟨b, ⟨_, hb, hparent⟩, _⟩ := Relation.TransGen.head'_iff.mp hcauses
  have hchild : b ∈ s.children r.seq :=
    List.mem_filter.mpr ⟨hb, by rw [hparent]; exact beq_self_eq_true _⟩
  rw [hchildren] at hchild
  cases hchild

/-- A tree that is read from a store that was only added to is the causal tree exactly for a record
from outside or one without children. The tree of any other record is the record alone. -/
theorem showsTree_iff (h : s.Appended) (hr : r ∈ s.records) :
    (s.ShowsTree r ↔ r.parent = none ∨ s.children r.seq = []) ∧
      (r.parent ≠ none → s.tree r.seq = [r]) := by
  refine ⟨⟨fun hshows => ?_, fun hplace => ⟨h.reachable.increasing.filter _, fun e => ?_⟩⟩,
    h.tree_of_inner hr⟩
  · by_cases hparent : r.parent = none
    · exact .inl hparent
    · right
      refine List.eq_nil_iff_forall_not_mem.mpr fun b hb => ?_
      obtain ⟨hmem, hcaused⟩ := List.mem_filter.mp hb
      have hcaused : b.parent = some r.seq := beq_iff_eq.mp hcaused
      have hcauses : Causes s.records r b := .single ⟨hr, hmem, hcaused⟩
      have htree : b ∈ s.tree r.seq := (hshows.2 b).mpr (.inr hcauses)
      rw [h.tree_of_inner hr hparent, List.mem_singleton] at htree
      subst htree
      exact Int.lt_irrefl _ (h.causedBy_of_parent hr hr hcaused).1
  · rw [h.mem_tree hr]
    rcases hplace with hparent | hchildren
    · rw [and_iff_right hparent]
    · have hnone := not_causes_of_children (e := e) hchildren
      simp only [hnone, and_false]

end Appended

def threeDeep : List Call :=
  [.append ⟨"x", [], [], some "a", 0⟩, .appendChild 1 ⟨"y", [], [], none, 0⟩,
    .appendChild 2 ⟨"z", [], [], none, 0⟩]

/-- In a chain of three the tree of the first record is its causal tree, and that of the second
lacks the third. -/
theorem showsTree_iff_threeDeep :
    let s := threeDeep.foldl after .empty
    s.Appended ∧ ∃ first second third, s.records = [first, second, third] ∧ s.ShowsTree first ∧
      ¬s.ShowsTree second ∧ s.tree 2 = [second] ∧ s.ShowsTree third := by
  intro s
  have happended : s.Appended := ⟨threeDeep, by simp [threeDeep], rfl⟩
  obtain ⟨first, second, third, hrecords, hfirst, hsecond, hseq, hchildren, hleaf⟩ :
      ∃ first second third, s.records = [first, second, third] ∧ first.parent = none ∧
        second.parent = some 1 ∧ second.seq = 2 ∧ s.children second.seq = [third] ∧
        s.children third.seq = [] := ⟨_, _, _, rfl, rfl, rfl, rfl, rfl, rfl⟩
  have hinner : second.parent ≠ none := by simp [hsecond]
  obtain ⟨hshows, _⟩ := happended.showsTree_iff (r := first) (by simp [hrecords])
  obtain ⟨hshows', htree⟩ := happended.showsTree_iff (r := second) (by simp [hrecords])
  obtain ⟨hshows'', _⟩ := happended.showsTree_iff (r := third) (by simp [hrecords])
  refine ⟨happended, first, second, third, hrecords, hshows.mpr (.inl hfirst), ?_,
    hseq ▸ htree hinner, hshows''.mpr (.inr hleaf)⟩
  rw [hshows', hchildren]
  simp [hsecond]

/-- The tree of the second record of the chain is not its causal tree: the third is missing. -/
theorem not_showsTree_threeDeep :
    let s := threeDeep.foldl after .empty
    s.Appended ∧ ∃ r ∈ s.records, r.seq = 2 ∧ ¬s.ShowsTree r := by
  intro s
  obtain ⟨first, second, third, hrecords, hseq, hother, hcaused, htree⟩ :
      ∃ first second third, s.records = [first, second, third] ∧ second.seq = 2 ∧ third.seq = 3 ∧
        third.parent = some second.seq ∧ s.tree second.seq = [second] :=
    ⟨_, _, _, rfl, rfl, rfl, rfl, rfl⟩
  have hsecond : second ∈ s.records := by simp [hrecords]
  have hthird : third ∈ s.records := by simp [hrecords]
  refine ⟨⟨threeDeep, by simp [threeDeep], rfl⟩, second, hsecond, hseq, fun hshows => ?_⟩
  have hmem : third ∈ s.tree second.seq :=
    (hshows.2 third).mpr (.inr (.single ⟨hsecond, hthird, hcaused⟩))
  rw [htree, List.mem_singleton] at hmem
  rw [hmem, hseq] at hother
  exact absurd hother (by decide)

end RecordStore

end ConceptSync
