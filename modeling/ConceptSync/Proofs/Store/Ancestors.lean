import ConceptSync.Proofs.Store.Indexed
import ConceptSync.Proofs.Store.Trees

set_option autoImplicit false
set_option relaxedAutoImplicit false

/-!
The walk up the parents of a record. It follows the stored links for as long as they lead to
retained records, and it ends because a parent always comes before its children, whatever was
forgotten in between and whatever run the children were stored under. What it passes are exactly the
records from which the children lead down to where it started.
-/

namespace ConceptSync

namespace RecordStore

variable {s : RecordStore}

inductive Climbs (s : RecordStore) : Option Int → List Record → Prop
  | stops {link : Option Int} : link.bind s.read = none → Climbs s link []
  | steps {link : Option Int} {p : Record} {rest : List Record} : link.bind s.read = some p →
      Climbs s p.parent rest → Climbs s link (p :: rest)

def parentOf (s : RecordStore) (seq : Int) : Option Int := (s.read seq).bind Record.parent

def LeadsTo (s : RecordStore) : Record → Record → Prop :=
  Relation.TransGen fun a b => a ∈ s.records ∧ b ∈ s.children a.seq

/-- What is asked for under the ancestors of a number. -/
structure WalksUp (s : RecordStore) (seq : Int) : Prop where
  /-- The walk ends, and what is answered is all that it passes. -/
  climbs : s.Climbs (s.parentOf seq) (s.ancestors seq)
  /-- It ends by itself: no bound on its length beyond the size of the store changes it. -/
  unbounded : ∀ fuel, s.records.length ≤ fuel → s.chain fuel (s.parentOf seq) = s.ancestors seq
  decreasing : (s.ancestors seq).Pairwise fun a b => b.seq < a.seq
  earlier : ∀ a ∈ s.ancestors seq, a.seq < seq
  /-- A record is among them exactly if its children, and theirs in turn, lead to the one asked
  for. -/
  reached : ∀ r, s.read seq = some r → ∀ a, a ∈ s.ancestors seq ↔ s.LeadsTo a r
  /-- As long as nothing was forgotten it ends at the record from outside that labels the chain. -/
  origin : s.Appended → ∀ r, s.read seq = some r → ∀ top, (s.ancestors seq).getLast? = some top →
    top.parent = none ∧ top.causedBy = none ∧ r.causedBy = some top.seq

private theorem read_eq_some {seq : Int} {r : Record} (h : s.read seq = some r) :
    r ∈ s.records ∧ r.seq = seq :=
  ⟨List.mem_of_find?_eq_some h, by simpa using List.find?_some h⟩

private theorem mem_children {seq : Int} {r : Record} :
    r ∈ s.children seq ↔ r ∈ s.records ∧ r.parent = some seq := by
  simp [children]

section Order

private theorem parent_lt_insert (h : ∀ r ∈ s.records, ∀ seq, r.parent = some seq → seq < r.seq)
    {d : Draft} {run : String} {parent causedBy : Option Int}
    (hparent : ∀ seq, parent = some seq → seq ≤ s.latest) :
    ∀ r ∈ (s.insert d run parent causedBy).2.records, ∀ seq, r.parent = some seq → seq < r.seq := by
  intro r hr seq hseq
  rcases List.mem_append.mp hr with hold | hnew
  · exact h r hold seq hseq
  · obtain rfl := List.mem_singleton.mp hnew
    have hle : seq ≤ s.latest := hparent seq hseq
    exact Int.lt_add_one_of_le hle

private theorem parent_lt_after (hle : ∀ r ∈ s.records, r.seq ≤ s.latest)
    (h : ∀ r ∈ s.records, ∀ seq, r.parent = some seq → seq < r.seq) (c : Call) :
    ∀ r ∈ (s.after c).records, ∀ seq, r.parent = some seq → seq < r.seq := by
  cases c with
  | append d =>
    simp only [after, append]
    split
    · exact h
    · apply parent_lt_insert h
      intro seq hseq
      cases hseq
  | appendChild parent d =>
    simp only [after, appendChild]
    split
    · exact h
    · next p hread =>
      obtain ⟨hp, hseq⟩ := read_eq_some hread
      apply parent_lt_insert h
      intro seq heq
      cases heq
      exact hseq ▸ hle p hp
  | forgetRun run =>
    intro r hr
    exact h r (List.mem_filter.mp hr).1
  | tick now => exact h

private theorem Reachable.parent_lt (h : s.Reachable) :
    ∀ r ∈ s.records, ∀ seq, r.parent = some seq → seq < r.seq := by
  obtain ⟨calls, rfl⟩ := h
  induction calls using List.reverseRecOn with
  | nil =>
    intro r hr
    cases hr
  | append_singleton calls c ih =>
    rw [List.foldl_append]
    exact parent_lt_after (Reachable.seq_le ⟨calls, rfl⟩) ih c

end Order

namespace Climbs

variable {link : Option Int} {passed : List Record}

private theorem mem_records (h : s.Climbs link passed) : ∀ a ∈ passed, a ∈ s.records := by
  induction h with
  | stops _ => exact List.forall_mem_nil _
  | steps hp _ ih =>
    obtain ⟨seq, _, hread⟩ := Option.bind_eq_some_iff.mp hp
    exact List.forall_mem_cons.mpr ⟨(read_eq_some hread).1, ih⟩

private theorem chain_eq (h : s.Climbs link passed) {fuel : Nat} (hfuel : passed.length ≤ fuel) :
    s.chain fuel link = passed := by
  induction h generalizing fuel with
  | stops hnone =>
    cases fuel with
    | zero => rfl
    | succ fuel => simp only [chain, hnone]
  | @steps link p rest hp _ ih =>
    cases fuel with
    | zero => exact absurd hfuel (Nat.not_succ_le_zero _)
    | succ fuel =>
      have hrest : rest.length ≤ fuel := Nat.le_of_succ_le_succ hfuel
      simp only [chain, hp, ih hrest]

private theorem decreasing (hs : s.Reachable) (h : s.Climbs link passed) :
    passed.Pairwise (fun a b => b.seq < a.seq) ∧
      ∀ bound, (∀ seq, link = some seq → seq < bound) → ∀ a ∈ passed, a.seq < bound := by
  induction h with
  | stops _ => exact ⟨.nil, fun _ _ => List.forall_mem_nil _⟩
  | @steps link p rest hp _ ih =>
    obtain ⟨seq, rfl, hread⟩ := Option.bind_eq_some_iff.mp hp
    obtain ⟨hmem, hseq⟩ := read_eq_some hread
    obtain ⟨hrest, hbelow⟩ := ih
    refine ⟨List.pairwise_cons.mpr ⟨hbelow p.seq (hs.parent_lt p hmem), hrest⟩, ?_⟩
    intro bound hbound
    have hp : p.seq < bound := hseq ▸ hbound seq rfl
    refine List.forall_mem_cons.mpr ⟨hp, hbelow bound fun next hnext => ?_⟩
    have := hs.parent_lt p hmem next hnext
    omega

private theorem length_le (hs : s.Reachable) (h : s.Climbs link passed) :
    passed.length ≤ s.records.length := by
  have hnodup : passed.Nodup := (h.decreasing hs).1.imp fun hlt heq =>
    Int.ne_of_lt hlt (congrArg Record.seq heq).symm
  exact (List.subperm_of_subset hnodup h.mem_records).length_le

private theorem mem_iff (hs : s.Reachable) {r : Record} (hr : r ∈ s.records)
    (h : s.Climbs r.parent passed) {a : Record} : a ∈ passed ↔ s.LeadsTo a r := by
  generalize hlink : r.parent = link at h
  induction h generalizing r with
  | @stops link hnone =>
    refine iff_of_false List.not_mem_nil fun hleads => ?_
    obtain ⟨p, _, hp, hchild⟩ := Relation.TransGen.tail'_iff.mp hleads
    rw [← hlink, (mem_children.mp hchild).2, Option.bind_some, hs.read_of_mem hp] at hnone
    cases hnone
  | @steps link p rest hp _ ih =>
    obtain ⟨seq, rfl, hread⟩ := Option.bind_eq_some_iff.mp hp
    obtain ⟨hmem, rfl⟩ := read_eq_some hread
    have hstep : p ∈ s.records ∧ r ∈ s.children p.seq := ⟨hmem, mem_children.mpr ⟨hr, hlink⟩⟩
    have hrest : a ∈ rest ↔ s.LeadsTo a p := ih hmem rfl
    rw [List.mem_cons, hrest]
    constructor
    · rintro (rfl | hleads)
      · exact .single hstep
      · exact hleads.tail hstep
    · intro hleads
      obtain ⟨q, hleads, hq, hchild⟩ := Relation.TransGen.tail'_iff.mp hleads
      have hseq : q.seq = p.seq := Option.some.inj ((mem_children.mp hchild).2.symm.trans hlink)
      obtain rfl := hs.eq_of_seq hq hmem hseq
      rcases Relation.reflTransGen_iff_eq_or_transGen.mp hleads with heq | hleads
      · exact .inl heq.symm
      · exact .inr hleads

private theorem origin (hs : s.Appended) {r top : Record} (hr : r ∈ s.records)
    (h : s.Climbs r.parent passed) (htop : passed.getLast? = some top) :
    top.parent = none ∧ top.causedBy = none ∧ r.causedBy = some top.seq := by
  generalize hlink : r.parent = link at h
  induction h generalizing r with
  | stops _ => cases htop
  | @steps link p rest hp hrest ih =>
    obtain ⟨seq, rfl, hread⟩ := Option.bind_eq_some_iff.mp hp
    obtain ⟨hmem, rfl⟩ := read_eq_some hread
    have hlabel := (hs.causedBy_of_parent hmem hr hlink).2
    cases hrest with
    | stops hnone =>
      obtain rfl : p = top := Option.some.inj htop
      have houtside : p.parent = none := by
        cases hparent : p.parent with
        | none => rfl
        | some above =>
          rcases hs.linked p hmem with ⟨hnoparent, _⟩ | ⟨cause, hcause, _, hcaused, _⟩
          · exact hnoparent.symm.trans hparent ▸ rfl
          · rw [hcaused, Option.bind_some, hs.reachable.read_of_mem hcause] at hnone
            cases hnone
      have hunlabelled := hs.causedBy_of_outside hmem houtside
      exact ⟨houtside, hunlabelled, by rw [hlabel, hunlabelled, Option.getD_none]⟩
    | steps hnext hlater =>
      obtain ⟨houtside, hunlabelled, hcaused⟩ :=
        ih hmem (by rwa [List.getLast?_cons_cons] at htop) rfl
      exact ⟨houtside, hunlabelled, by rw [hlabel, hcaused, Option.getD_some]⟩

end Climbs

private theorem Reachable.exists_climbs (h : s.Reachable) (link : Option Int) :
    ∃ passed, s.Climbs link passed := by
  have hfrom : ∀ n : Nat, ∀ link : Option Int, (∀ p, link.bind s.read = some p → p.seq < n) →
      ∃ passed, s.Climbs link passed := by
    intro n
    induction n with
    | zero =>
      intro link hbelow
      refine ⟨[], .stops (Option.eq_none_iff_forall_not_mem.mpr fun p hp => ?_)⟩
      obtain ⟨seq, _, hread⟩ := Option.bind_eq_some_iff.mp hp
      obtain ⟨number, hnumber, _⟩ := h.issued p (read_eq_some hread).1
      have := hbelow p hp
      omega
    | succ n ih =>
      intro link hbelow
      cases hp : link.bind s.read with
      | none => exact ⟨[], .stops hp⟩
      | some p =>
        obtain ⟨seq, _, hread⟩ := Option.bind_eq_some_iff.mp hp
        have hlt := hbelow p hp
        obtain ⟨rest, hrest⟩ := ih p.parent fun q hq => by
          obtain ⟨above, habove, hfound⟩ := Option.bind_eq_some_iff.mp hq
          have hqseq := (read_eq_some hfound).2
          have := h.parent_lt p (read_eq_some hread).1 above habove
          omega
        exact ⟨p :: rest, .steps hp hrest⟩
  refine hfrom (s.latest + 1) link fun p hp => ?_
  obtain ⟨seq, _, hread⟩ := Option.bind_eq_some_iff.mp hp
  have := h.seq_le p (read_eq_some hread).1
  omega

private theorem Reachable.climbs_ancestors (h : s.Reachable) (seq : Int) :
    s.Climbs (s.parentOf seq) (s.ancestors seq) := by
  obtain ⟨passed, hpassed⟩ := h.exists_climbs (s.parentOf seq)
  have hsame : s.ancestors seq = passed := hpassed.chain_eq (hpassed.length_le h)
  rw [hsame]
  exact hpassed

/-- After any appends, in any runs, and any forgetting, the ancestors of a number are read off a
walk that ends and is exact. The store with its indexes reads the same. -/
theorem walksUp_after (calls : List Call) (seq : Int) :
    (calls.foldl after .empty).WalksUp seq ∧
      (calls.foldl IndexedStore.after .empty).ancestors seq =
        (calls.foldl after .empty).ancestors seq := by
  have hs : (calls.foldl after .empty).Reachable := ⟨calls, rfl⟩
  refine ⟨?_, ?_⟩
  · generalize calls.foldl after .empty = s at hs
    have hclimbs := hs.climbs_ancestors seq
    have hread : ∀ {r : Record}, s.read seq = some r → s.parentOf seq = r.parent := by
      intro r hr
      rw [parentOf, hr, Option.bind_some]
    exact {
      climbs := hclimbs
      unbounded := fun fuel hfuel => hclimbs.chain_eq ((hclimbs.length_le hs).trans hfuel)
      decreasing := (hclimbs.decreasing hs).1
      earlier := (hclimbs.decreasing hs).2 seq fun above habove => by
        obtain ⟨r, hr, hparent⟩ := Option.bind_eq_some_iff.mp habove
        obtain ⟨hmem, rfl⟩ := read_eq_some hr
        exact hs.parent_lt r hmem above hparent
      reached := fun r hr a => (hread hr ▸ hclimbs).mem_iff hs (read_eq_some hr).1
      origin := fun happended r hr top htop =>
        (hread hr ▸ hclimbs).origin happended (read_eq_some hr).1 htop }
  · rw [(IndexedStore.aligned calls).ancestors_eq, IndexedStore.view_eq]

/-- In a chain across three runs, of which the middle one is forgotten, the walk stops where the
chain is broken. -/
example :
    let s := [.append ⟨"x", [], [], some "a", 0⟩, .appendChild 1 ⟨"y", [], [], some "b", 0⟩,
      .appendChild 2 ⟨"z", [], [], some "c", 0⟩, .appendChild 3 ⟨"w", [], [], none, 0⟩,
      .forgetRun "b"].foldl after .empty
    (s.ancestors 4).map Record.seq = [3] ∧ s.ancestors 3 = [] := by decide +kernel

end RecordStore

end ConceptSync
