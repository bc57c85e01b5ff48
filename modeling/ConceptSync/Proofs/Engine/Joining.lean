import Mathlib.Data.List.InsertIdx
import ConceptSync.Proofs.Engine.Consumption
import ConceptSync.Proofs.Engine.Handing
import ConceptSync.Proofs.Frame.Algebra
import ConceptSync.Proofs.Frame.Unification
import ConceptSync.Proofs.Join.Selections

set_option autoImplicit false
set_option relaxedAutoImplicit false

/-!
What a completion joins, told by the history of the run alone. As long as the patterns of a rule
name different actions, its slots hold exactly the earlier completions that took part in no firing,
so a completion joins with all choices of such completions whose frames are compatible.
-/

namespace ConceptSync

variable {σ : Type}

namespace Matching

def frame? (m : Matching σ) (p : Pattern) : Option Frame :=
  p.unify? m.action m.record.input m.record.output

private theorem action_eq_of_frame? {m : Matching σ} {p : Pattern} {f : Frame}
    (h : m.frame? p = some f) :
    p.action = m.action := by
  by_contra hne
  simp [frame?, Pattern.unify?, hne] at h

private theorem frame?_eq_none {m : Matching σ} {rule : Rule σ}
    (h : ¬ ∃ (i : Nat) (p : Pattern) (f : Frame),
      rule.clauses.whenPatterns[i]? = some p ∧ m.frame? p = some f)
    {p : Pattern} (hp : p ∈ rule.clauses.whenPatterns) : m.frame? p = none := by
  obtain ⟨i, hi⟩ := List.mem_iff_getElem?.mp hp
  cases hf : m.frame? p with
  | none => rfl
  | some f => exact absurd ⟨i, p, f, hi, hf⟩ h

private theorem not_takesPart_of_nil {m : Matching σ} {k : Nat} {rule : Rule σ}
    (h : m.joined k rule = []) (seq : Int) : ¬ m.TakesPart k rule seq := by
  rintro ⟨j, hj, _⟩
  rw [h] at hj
  cases hj

end Matching

/-- A completion took part in none of the firings that these matchings triggered. -/
def Unspent (k : Nat) (rule : Rule σ) (ms : List (Matching σ)) (seq : Int) : Prop :=
  ∀ m ∈ ms, ¬ m.TakesPart k rule seq

instance (k : Nat) (rule : Rule σ) (ms : List (Matching σ)) (seq : Int) :
    Decidable (Unspent k rule ms seq) :=
  inferInstanceAs (Decidable (∀ m ∈ ms, ¬ m.TakesPart k rule seq))

private theorem unspent_snoc {k : Nat} {rule : Rule σ} {ms : List (Matching σ)} {m : Matching σ}
    {seq : Int} :
    Unspent k rule (ms ++ [m]) seq ↔ Unspent k rule ms seq ∧ ¬ m.TakesPart k rule seq := by
  simp [Unspent, or_imp, forall_and]

def available (k : Nat) (rule : Rule σ) (ms : List (Matching σ)) (p : Pattern) :
    List (Matching σ × Frame) :=
  (ms.filter fun e => decide (Unspent k rule ms e.record.seq)).filterMap fun e =>
    (e.frame? p).map fun f => (e, f)

private theorem mem_available {k : Nat} {rule : Rule σ} {ms : List (Matching σ)} {p : Pattern}
    {o : Matching σ × Frame} :
    o ∈ available k rule ms p ↔
      o.1 ∈ ms ∧ Unspent k rule ms o.1.record.seq ∧ o.1.frame? p = some o.2 := by
  simp only [available, List.mem_filterMap, List.mem_filter, Option.map_eq_some_iff,
    decide_eq_true_eq]
  constructor
  · rintro ⟨e, ⟨he, hunused⟩, f, hf, rfl⟩
    exact ⟨he, hunused, hf⟩
  · rintro ⟨he, hunused, hf⟩
    exact ⟨o.1, ⟨he, hunused⟩, o.2, hf, rfl⟩

def pendingOf (o : Matching σ × Frame) : Pending := ⟨o.1.record.seq, o.2⟩

def Stocked (k : Nat) (rule : Rule σ) (ms : List (Matching σ)) (state : JoinState) : Prop :=
  state.slots = rule.clauses.whenPatterns.map fun p => (available k rule ms p).map pendingOf

private theorem available_snoc {k : Nat} {rule : Rule σ} {ms : List (Matching σ)} {m : Matching σ}
    (hnew : Unspent k rule ms m.record.seq) (p : Pattern) :
    available k rule (ms ++ [m]) p =
      (available k rule ms p).filter (fun o => decide (¬ m.TakesPart k rule o.1.record.seq)) ++
        if m.TakesPart k rule m.record.seq then []
        else ((m.frame? p).map fun f => (m, f)).toList := by
  unfold available
  rw [List.filter_append, List.filterMap_append]
  congr 1
  · rw [List.filterMap_filter, List.filterMap_filter, List.filter_filterMap]
    refine List.filterMap_congr fun e _ => ?_
    simp only [decide_eq_true_eq, unspent_snoc]
    by_cases hbefore : Unspent k rule ms e.record.seq <;>
      by_cases hnow : m.TakesPart k rule e.record.seq <;>
      cases e.frame? p <;> simp [hbefore, hnow, Option.filter]
  · by_cases hown : m.TakesPart k rule m.record.seq
    · simp [unspent_snoc, hown]
    · cases hframe : m.frame? p <;> simp [unspent_snoc, hown, hnew, hframe]

section Distinct

variable {k : Nat} {rule : Rule σ} {ms : List (Matching σ)} {m : Matching σ}

private theorem slot_unique (hdistinct : (rule.clauses.whenPatterns.map Pattern.action).Nodup)
    {i j : Nat} {p q : Pattern} {f g : Frame} (hp : rule.clauses.whenPatterns[i]? = some p)
    (hf : m.frame? p = some f) (hq : rule.clauses.whenPatterns[j]? = some q)
    (hg : m.frame? q = some g) : i = j := by
  have hi : (rule.clauses.whenPatterns.map Pattern.action)[i]? = some m.action := by
    rw [List.getElem?_map, hp, Option.map_some, Matching.action_eq_of_frame? hf]
  have hj : (rule.clauses.whenPatterns.map Pattern.action)[j]? = some m.action := by
    rw [List.getElem?_map, hq, Option.map_some, Matching.action_eq_of_frame? hg]
  obtain ⟨hlt, _⟩ := List.getElem?_eq_some_iff.mp hi
  exact (List.getElem?_inj hlt hdistinct).mp (hi.trans hj.symm)

private theorem offered_eq (hdistinct : (rule.clauses.whenPatterns.map Pattern.action).Nodup)
    {i : Nat} {p : Pattern} {f : Frame} (hp : rule.clauses.whenPatterns[i]? = some p)
    (hf : m.frame? p = some f) :
    m.run.offered m.action m.record k rule =
      (m.run.joinState k rule).offer i m.record.seq f := by
  have hother : ∀ j q, rule.clauses.whenPatterns[j]? = some q → j ≠ i →
      q.unify? m.action m.record.input m.record.output = none := by
    intro j q hq hne
    cases hg : q.unify? m.action m.record.input m.record.output with
    | none => rfl
    | some g => exact absurd (slot_unique hdistinct hq hg hp hf) hne
  unfold Run.offered
  rw [offerSlots_of_unique hp hf hother, Nat.zero_add]

private theorem Stocked.held (hdistinct : (rule.clauses.whenPatterns.map Pattern.action).Nodup)
    (hnew : Unspent k rule ms m.record.seq) (h : Stocked k rule ms (m.run.joinState k rule))
    {i : Nat} {p : Pattern} {f : Frame} (hp : rule.clauses.whenPatterns[i]? = some p)
    (hf : m.frame? p = some f)
    (hnil : (m.run.joinState k rule).combinations i m.record.seq f = []) :
    Stocked k rule (ms ++ [m]) (m.pending k rule) := by
  have hoffered : m.run.offered m.action m.record k rule = _ := offered_eq hdistinct hp hf
  rw [JoinState.offer_of_combinations_nil hnil] at hoffered
  have hnone := Matching.not_takesPart_of_nil (m := m) (congrArg Prod.fst hoffered)
  have hpending : m.pending k rule = _ := congrArg Prod.snd hoffered
  unfold Stocked at h ⊢
  rw [hpending, JoinState.hold, h]
  refine List.ext_getElem? fun j => ?_
  rw [List.getElem?_modify, List.getElem?_map, List.getElem?_map]
  cases hq : rule.clauses.whenPatterns[j]? with
  | none => rfl
  | some q =>
    simp only [Option.map_some, available_snoc hnew q, hnone, if_false]
    by_cases hij : i = j
    · subst hij
      obtain rfl : p = q := Option.some.inj (hp.symm.trans hq)
      simp [hf, pendingOf]
    · have hg : m.frame? q = none := by
        cases hg : m.frame? q with
        | none => rfl
        | some g => exact absurd (slot_unique hdistinct hp hf hq hg) hij
      simp [hij, hg]

private theorem Stocked.consumed
    (hdistinct : (rule.clauses.whenPatterns.map Pattern.action).Nodup)
    (hnew : Unspent k rule ms m.record.seq) (h : Stocked k rule ms (m.run.joinState k rule))
    {i : Nat} {p : Pattern} {f : Frame} (hp : rule.clauses.whenPatterns[i]? = some p)
    (hf : m.frame? p = some f)
    (hne : (m.run.joinState k rule).combinations i m.record.seq f ≠ []) :
    Stocked k rule (ms ++ [m]) (m.pending k rule) := by
  have hoffered : m.run.offered m.action m.record k rule = _ := offered_eq hdistinct hp hf
  rw [JoinState.offer_of_combinations_ne hne] at hoffered
  have hjoined : m.joined k rule =
      (m.run.joinState k rule).combinations i m.record.seq f := congrArg Prod.fst hoffered
  have hown : m.TakesPart k rule m.record.seq :=
    Matching.takesPart_self (by rw [hjoined]; exact hne)
  have htaken : ∀ seq, seq ∈ (m.joined k rule).flatMap Joined.seqs ↔
      m.TakesPart k rule seq := fun seq => List.mem_flatMap
  have hpending : m.pending k rule = _ := congrArg Prod.snd hoffered
  unfold Stocked at h ⊢
  rw [hpending]
  simp only [← hjoined, JoinState.consume, h, List.map_map]
  refine List.map_congr_left fun q _ => ?_
  simp only [Function.comp_apply, available_snoc hnew q, hown, if_true, List.append_nil,
    List.filter_map]
  congr 1
  refine List.filter_congr fun o _ => ?_
  exact decide_eq_decide.mpr (not_congr (htaken _))

private theorem Stocked.passed (hnew : Unspent k rule ms m.record.seq)
    (h : Stocked k rule ms (m.run.joinState k rule))
    (hnomatch : ∀ p ∈ rule.clauses.whenPatterns, m.frame? p = none) :
    Stocked k rule (ms ++ [m]) (m.pending k rule) := by
  have hoffered : m.run.offered m.action m.record k rule = _ := offerSlots_of_no_match hnomatch
  have hnone := Matching.not_takesPart_of_nil (m := m) (congrArg Prod.fst hoffered)
  unfold Stocked at h ⊢
  rw [show m.pending k rule = _ from congrArg Prod.snd hoffered, h]
  refine List.map_congr_left fun q hq => ?_
  simp [available_snoc hnew q, hnone, hnomatch q hq]

private theorem Stocked.snoc (hdistinct : (rule.clauses.whenPatterns.map Pattern.action).Nodup)
    (hnew : Unspent k rule ms m.record.seq)
    (h : Stocked k rule ms (m.run.joinState k rule)) :
    Stocked k rule (ms ++ [m]) (m.pending k rule) := by
  by_cases hmatch : ∃ (i : Nat) (p : Pattern) (f : Frame),
    rule.clauses.whenPatterns[i]? = some p ∧ m.frame? p = some f
  · obtain ⟨i, p, f, hp, hf⟩ := hmatch
    by_cases hnil : (m.run.joinState k rule).combinations i m.record.seq f = []
    · exact h.held hdistinct hnew hp hf hnil
    · exact h.consumed hdistinct hnew hp hf hnil
  · exact h.passed hnew fun p => Matching.frame?_eq_none hmatch

end Distinct

namespace Matched

variable {rules : List (Rule σ)} {ms : List (Matching σ)} {run : Run σ}

private theorem nodup_seqs (h : Matched rules ms run) (hissued : ∀ m ∈ ms, m.record.Issued) :
    (ms.map fun m => m.record.seq).Nodup := by
  induction h with
  | fresh _ _ => exact List.nodup_nil
  | @matching earlier m run hearlier hunseen _ _ ih =>
    rw [List.map_append, List.map_singleton, List.nodup_append]
    refine ⟨ih fun m' hm' => hissued m' (by simp [hm']), List.nodup_singleton _, ?_⟩
    intro a ha b hb
    obtain ⟨m', hm', rfl⟩ := List.mem_map.mp ha
    rw [List.mem_singleton.mp hb]
    exact hearlier.seq_ne hunseen hissued m' hm'

private theorem unspent {k : Nat} {rule : Rule σ} {m : Matching σ} (h : Matched rules ms m.run)
    (hunseen : m.record.id ∉ m.run.seen) (hrule : rules[k]? = some rule)
    (hissued : ∀ m' ∈ ms ++ [m], m'.record.Issued) : Unspent k rule ms m.record.seq := by
  intro e he hpart
  have haccount := h.accounted hrule fun m' hm' => hissued m' (by simp [hm'])
  obtain ⟨m', hm', heq⟩ := haccount.joined e he _ hpart
  exact h.seq_ne hunseen hissued m' hm' heq

private theorem stocked {k : Nat} {rule : Rule σ} (h : Matched rules ms run)
    (hrule : rules[k]? = some rule) (hissued : ∀ m ∈ ms, m.record.Issued)
    (hdistinct : (rule.clauses.whenPatterns.map Pattern.action).Nodup) :
    Stocked k rule ms (run.joinState k rule) := by
  induction h with
  | @fresh run hjoins _ =>
    simp [Stocked, Run.joinState, hjoins, JoinState.empty, available]
  | @matching earlier m run hearlier hunseen hjoins _ ih =>
    have hstate : run.joinState k rule = m.pending k rule := by
      unfold Run.joinState
      rw [hjoins]
      exact Run.joinState_matched m.action m.record hrule
    rw [hstate]
    exact (ih fun m' hm' => hissued m' (by simp [hm'])).snoc hdistinct
      (hearlier.unspent hunseen hrule hissued)

end Matched

/-- A way to fill the patterns of a rule: the pattern that the processed completion matches with the
frame it makes, and for each other pattern, in order, an earlier completion with its frame. -/
structure Choice (σ : Type) where
  slot : Nat
  own : Frame
  others : List (Matching σ × Frame)

namespace Choice

def frames (c : Choice σ) : List Frame := c.own :: c.others.map Prod.snd

def merged (c : Choice σ) : Frame := c.own.overlayAll (c.others.map Prod.snd)

def seqs (m : Matching σ) (c : Choice σ) : List Int :=
  m.record.seq :: c.others.map fun o => o.1.record.seq

/-- The processed completion matches the pattern it fills, each other pattern is filled with a
completion that matches it, was processed earlier and took part in no firing, and every variable
shared by two of the frames has equal values in both. -/
structure Valid (k : Nat) (rule : Rule σ) (earlier : List (Matching σ)) (m : Matching σ)
    (c : Choice σ) : Prop where
  own : ∃ p, rule.clauses.whenPatterns[c.slot]? = some p ∧ m.frame? p = some c.own
  others : List.Forall₂ (fun (o : Matching σ × Frame) p =>
    o.1 ∈ earlier ∧ Unspent k rule earlier o.1.record.seq ∧ o.1.frame? p = some o.2)
    c.others (rule.clauses.whenPatterns.eraseIdx c.slot)
  compatible : c.frames.Pairwise Frame.Compatible

end Choice

section Selected

variable {k : Nat} {rule : Rule σ} {earlier : List (Matching σ)} {patterns : List Pattern}

private theorem selected_iff {s : List (Matching σ × Frame)} :
    s ∈ selections (patterns.map (available k rule earlier)) ↔
      List.Forall₂ (fun (o : Matching σ × Frame) p =>
        o.1 ∈ earlier ∧ Unspent k rule earlier o.1.record.seq ∧ o.1.frame? p = some o.2)
        s patterns := by
  rw [mem_selections, List.forall₂_map_right_iff]
  simp only [mem_available]

private theorem of_selected {s : List (Matching σ × Frame)}
    (hs : s ∈ selections (patterns.map (available k rule earlier))) :
    (s.map fun o => o.1.action) = patterns.map Pattern.action ∧
      ∀ o ∈ s, o.1 ∈ earlier ∧ o.2.keys.Nodup := by
  replace hs := selected_iff.mp hs
  induction hs with
  | nil => simp
  | cons ho _ ih =>
    obtain ⟨hearlier, _, hframe⟩ := ho
    simp only [List.map_cons, ih.1, Matching.action_eq_of_frame? hframe, List.forall_mem_cons,
      true_and]
    exact ⟨⟨hearlier, Pattern.nodup_keys_unify? hframe⟩, ih.2⟩

private theorem nodup_selected (hdistinct : (patterns.map Pattern.action).Nodup)
    (hseqs : (earlier.map fun m => m.record.seq).Nodup) {s : List (Matching σ × Frame)}
    (hs : s ∈ selections (patterns.map (available k rule earlier))) :
    (s.map fun o => o.1.record.seq).Nodup := by
  obtain ⟨hactions, hmem⟩ := of_selected hs
  rw [← hactions] at hdistinct
  refine List.pairwise_map.mpr ((List.pairwise_map.mp hdistinct).imp_of_mem ?_)
  intro o o' ho ho' hne heq
  have hsame : o.1 = o'.1 :=
    List.inj_on_of_nodup_map hseqs (hmem o ho).1 (hmem o' ho').1 heq
  exact hne (congrArg Matching.action hsame)

private theorem nodup_selections_seqs (hseqs : (earlier.map fun m => m.record.seq).Nodup) :
    ((selections (patterns.map (available k rule earlier))).map
      (List.map fun o => o.1.record.seq)).Nodup := by
  rw [map_selections]
  refine nodup_selections fun slot hslot => ?_
  rw [List.map_map] at hslot
  obtain ⟨p, _, rfl⟩ := List.mem_map.mp hslot
  refine hseqs.sublist ?_
  have havailable : ∀ ms : List (Matching σ),
      ((ms.filterMap fun e => (e.frame? p).map fun f => (e, f)).map
        fun o => o.1.record.seq).Sublist (ms.map fun m => m.record.seq) := by
    intro ms
    induction ms with
    | nil => exact .slnil
    | cons e ms ih =>
      cases hframe : e.frame? p with
      | none => simpa [hframe] using ih.cons _
      | some f => simpa [hframe] using ih
  exact (havailable _).trans ((List.filter_sublist).map _)

private theorem combinations_of_stocked {state : JoinState} (h : Stocked k rule earlier state)
    (index : Nat) (seq : Int) (f : Frame) :
    state.combinations index seq f =
      (selections ((rule.clauses.whenPatterns.eraseIdx index).map
        (available k rule earlier))).filterMap fun s =>
          (s.map pendingOf).foldlM JoinState.extendWith? ⟨f, [seq]⟩ := by
  have hslots : state.slots.eraseIdx index =
      ((rule.clauses.whenPatterns.eraseIdx index).map (available k rule earlier)).map
        (List.map pendingOf) := by
    rw [show state.slots = _ from h, List.eraseIdx_map, List.map_map]
    rfl
  rw [JoinState.combinations_eq_selections, hslots, ← map_selections, List.filterMap_map]
  rfl

private theorem join_selected_iff {m : Matching σ} {index : Nat} {f : Frame} {j : Joined}
    (hdistinct : (patterns.map Pattern.action).Nodup)
    (hseqs : (earlier.map fun m => m.record.seq).Nodup)
    (hnew : ∀ e ∈ earlier, e.record.seq ≠ m.record.seq) {s : List (Matching σ × Frame)}
    (hs : s ∈ selections (patterns.map (available k rule earlier))) :
    (s.map pendingOf).foldlM JoinState.extendWith? ⟨f, [m.record.seq]⟩ = some j ↔
      (Choice.mk index f s).frames.Pairwise Frame.Compatible ∧
        ⟨(Choice.mk index f s).merged, (Choice.mk index f s).seqs m⟩ = j := by
  have hmem := (of_selected hs).2
  have hkeys : ∀ p ∈ s.map pendingOf, p.frame.keys.Nodup := by
    intro p hp
    obtain ⟨o, ho, rfl⟩ := List.mem_map.mp hp
    exact (hmem o ho).2
  have hother : ∀ p ∈ s.map pendingOf, p.seq ∉ [m.record.seq] := by
    intro p hp heq
    obtain ⟨o, ho, rfl⟩ := List.mem_map.mp hp
    exact hnew o.1 (hmem o ho).1 (List.mem_singleton.mp heq)
  have hnodup : ((s.map pendingOf).map Pending.seq).Nodup := by
    rw [List.map_map]
    exact nodup_selected hdistinct hseqs hs
  have hframes : (s.map pendingOf).map Pending.frame = s.map Prod.snd := by
    rw [List.map_map]
    rfl
  have hall : (s.map pendingOf).map Pending.seq = s.map fun o => o.1.record.seq := by
    rw [List.map_map]
    rfl
  rw [JoinState.foldlM_extendWith?_eq_some_iff hkeys, and_iff_right hother, and_iff_right hnodup,
    hframes, hall]
  rfl

end Selected

section Choosing

variable {k : Nat} {rule : Rule σ} {earlier : List (Matching σ)} {m : Matching σ} {i : Nat}
  {p : Pattern} {f : Frame}

private def choicesFrom (k : Nat) (rule : Rule σ) (earlier : List (Matching σ))
    (i : Nat) (f : Frame) : List (Choice σ) :=
  ((selections ((rule.clauses.whenPatterns.eraseIdx i).map (available k rule earlier))).map
    (Choice.mk i f)).filter fun c => decide (c.frames.Pairwise Frame.Compatible)

private theorem nodup_choicesFrom (hseqs : (earlier.map fun m => m.record.seq).Nodup) :
    ((choicesFrom k rule earlier i f).map (Choice.seqs m)).Nodup := by
  refine List.Nodup.sublist (List.filter_sublist.map _) ?_
  have hselected : ((selections ((rule.clauses.whenPatterns.eraseIdx i).map
      (available k rule earlier))).map (List.map fun o => o.1.record.seq)).Nodup :=
    nodup_selections_seqs hseqs
  have hcons := hselected.map (f := (m.record.seq :: ·)) fun _ _ heq => (List.cons.inj heq).2
  rw [List.map_map] at hcons ⊢
  exact hcons

private theorem mem_choicesFrom
    (hdistinct : (rule.clauses.whenPatterns.map Pattern.action).Nodup)
    (hp : rule.clauses.whenPatterns[i]? = some p) (hf : m.frame? p = some f) {c : Choice σ} :
    c ∈ choicesFrom k rule earlier i f ↔ c.Valid k rule earlier m := by
  constructor
  · intro hc
    obtain ⟨hc, hcompatible⟩ := List.mem_filter.mp hc
    obtain ⟨s, hs, rfl⟩ := List.mem_map.mp hc
    exact ⟨⟨p, hp, hf⟩, selected_iff.mp hs, of_decide_eq_true hcompatible⟩
  · rintro ⟨⟨q, hq, hg⟩, hothers, hcompatible⟩
    obtain ⟨slot, own, others⟩ := c
    obtain rfl : i = slot := slot_unique hdistinct hp hf hq hg
    obtain rfl : p = q := Option.some.inj (hp.symm.trans hq)
    obtain rfl : f = own := Option.some.inj (hf.symm.trans hg)
    exact List.mem_filter.mpr
      ⟨List.mem_map.mpr ⟨others, selected_iff.mpr hothers, rfl⟩, decide_eq_true hcompatible⟩

private theorem joined_eq_choicesFrom
    (hdistinct : (rule.clauses.whenPatterns.map Pattern.action).Nodup)
    (hstocked : Stocked k rule earlier (m.run.joinState k rule))
    (hseqs : (earlier.map fun m => m.record.seq).Nodup)
    (hnew : ∀ e ∈ earlier, e.record.seq ≠ m.record.seq)
    (hp : rule.clauses.whenPatterns[i]? = some p) (hf : m.frame? p = some f) :
    m.joined k rule =
      (choicesFrom k rule earlier i f).map fun c => ⟨c.merged, c.seqs m⟩ := by
  have hpatterns : ((rule.clauses.whenPatterns.eraseIdx i).map Pattern.action).Nodup :=
    hdistinct.sublist ((List.eraseIdx_sublist _ _).map _)
  have hjoined : m.joined k rule = _ := congrArg Prod.fst (offered_eq hdistinct hp hf)
  rw [hjoined, JoinState.offer_fst, combinations_of_stocked hstocked,
    filterMap_eq_map_filter
      (fun s => decide ((Choice.mk i f s).frames.Pairwise Frame.Compatible))
      fun s hs j => (join_selected_iff hpatterns hseqs hnew hs).trans
        (and_congr_left' decide_eq_true_iff.symm)]
  simp only [choicesFrom, List.filter_map, List.map_map]
  rfl

private theorem Matching.joined_eq_choices
    (hdistinct : (rule.clauses.whenPatterns.map Pattern.action).Nodup)
    (hstocked : Stocked k rule earlier (m.run.joinState k rule))
    (hseqs : (earlier.map fun m => m.record.seq).Nodup)
    (hnew : ∀ e ∈ earlier, e.record.seq ≠ m.record.seq) :
    ∃ choices : List (Choice σ), (choices.map (Choice.seqs m)).Nodup ∧
      (∀ c, c ∈ choices ↔ c.Valid k rule earlier m) ∧
      m.joined k rule = choices.map fun c => ⟨c.merged, c.seqs m⟩ := by
  by_cases hmatch : ∃ (i : Nat) (p : Pattern) (f : Frame),
      rule.clauses.whenPatterns[i]? = some p ∧ m.frame? p = some f
  · obtain ⟨i, p, f, hp, hf⟩ := hmatch
    exact ⟨choicesFrom k rule earlier i f, nodup_choicesFrom hseqs,
      fun _ => mem_choicesFrom hdistinct hp hf,
      joined_eq_choicesFrom hdistinct hstocked hseqs hnew hp hf⟩
  · refine ⟨[], List.nodup_nil, fun c => ⟨nofun, fun hc => ?_⟩,
      congrArg Prod.fst (offerSlots_of_no_match fun p => frame?_eq_none hmatch)⟩
    obtain ⟨p, hp, hf⟩ := hc.own
    exact absurd ⟨_, p, _, hp, hf⟩ hmatch

end Choosing

private theorem Stocked.mem_slot_iff {k : Nat} {rule : Rule σ} {ms : List (Matching σ)}
    {state : JoinState} (h : Stocked k rule ms state) {i : Nat} {p : Pattern}
    (hp : rule.clauses.whenPatterns[i]? = some p) :
    ∃ slot, state.slots[i]? = some slot ∧ ∀ pending : Pending, pending ∈ slot ↔
      ∃ e ∈ ms, e.record.seq = pending.seq ∧ e.frame? p = some pending.frame ∧
        Unspent k rule ms pending.seq := by
  refine ⟨_, by rw [show state.slots = _ from h, List.getElem?_map, hp]; rfl, fun pending => ?_⟩
  rw [List.mem_map]
  constructor
  · rintro ⟨o, ho, rfl⟩
    obtain ⟨he, hunspent, hframe⟩ := mem_available.mp ho
    exact ⟨o.1, he, rfl, hframe, hunspent⟩
  · rintro ⟨e, he, hseq, hframe, hunspent⟩
    refine ⟨(e, pending.frame), mem_available.mpr ⟨he, hseq ▸ hunspent, hframe⟩, ?_⟩
    rw [pendingOf, hseq]

/-- Join correctness over the course of a run, for a rule whose patterns name different actions.
A turn that matches a completion hands frames to the rule exactly if there is a valid choice of
earlier completions, and it hands the merged frames of all valid choices, each choice once; no other
frames ever wait to be refined. A completion that matched stays in its slot for as long as it takes
part in no firing. -/
theorem Run.Course.hands_all_choices {engine : Engine σ} {redelivers : Prop}
    {earlier : List (Matching σ)} {l : Loop σ RecordStore}
    (course : Course engine redelivers earlier l) {k : Nat} {rule : Rule σ}
    (hrule : engine.rules[k]? = some rule)
    (hdistinct : (rule.clauses.whenPatterns.map Pattern.action).Nodup) :
    (∀ m, l.matching? = some m →
      (∃ rest, l.stack = .complete m.action m.record :: rest ∧
        l.turn engine = .inl ⟨(engine.rules.mapIdx m.handed).flatten ++ rest,
          l.progress.withRun (m.run.matched m.action m.record engine.rules)⟩) ∧
      (m.handed k rule ≠ [] ↔ ∃ c : Choice σ, c.Valid k rule earlier m) ∧
      ∃ choices : List (Choice σ), (choices.map (Choice.seqs m)).Nodup ∧
        (∀ c, c ∈ choices ↔ c.Valid k rule earlier m) ∧
        m.joined k rule = choices.map (fun c => ⟨c.merged, c.seqs m⟩) ∧
        m.handed k rule =
          if choices.isEmpty then [] else [.evaluate rule (choices.map Choice.merged) m.record]) ∧
    (∀ rule' frames trigger, .evaluate rule' frames trigger ∈ l.stack →
      ∃ k', engine.rules[k']? = some rule' ∧
        ∃ m ∈ earlier, .evaluate rule' frames trigger ∈ m.handed k' rule') ∧
    ∀ (i : Nat) (p : Pattern), rule.clauses.whenPatterns[i]? = some p →
      ∃ slot : List Pending, (l.progress.run.joinState k rule).slots[i]? = some slot ∧
        ∀ pending : Pending, pending ∈ slot ↔
          ∃ e ∈ earlier, e.record.seq = pending.seq ∧ e.frame? p = some pending.frame ∧
            Unspent k rule earlier pending.seq := by
  have hstocked := course.matched.stocked hrule course.issued hdistinct
  refine ⟨fun m hm => ?_, fun rule' frames trigger => course.handed_of_queued,
    fun i p => hstocked.mem_slot_iff⟩
  obtain ⟨rest, hstack, hturn⟩ := Loop.turn_matching engine hm
  obtain ⟨hrun, hunseen⟩ := Loop.unseen_of_matching hm
  have hissued : ∀ m' ∈ earlier ++ [m], m'.record.Issued := by
    have hlater := (course.turn hturn).issued
    rwa [hm] at hlater
  have hmatched : Matched engine.rules earlier m.run := hrun ▸ course.matched
  obtain ⟨choices, hnodup, hvalid, hjoined⟩ := Matching.joined_eq_choices hdistinct
    (hrun ▸ hstocked) (hmatched.nodup_seqs course.issued) (hmatched.seq_ne hunseen hissued)
  have hhanded : m.handed k rule =
      if choices.isEmpty then [] else [.evaluate rule (choices.map Choice.merged) m.record] := by
    simp only [Matching.handed, hjoined, List.isEmpty_map, List.map_map]
    rfl
  refine ⟨⟨rest, hstack, hturn⟩, ?_, choices, hnodup, hvalid, hjoined, hhanded⟩
  rw [hhanded]
  cases choices with
  | nil => simpa using fun c hc => by cases (hvalid c).mpr hc
  | cons c rest => simpa using ⟨c, (hvalid c).mp (List.mem_cons_self ..)⟩

def Engine.duet (rules : List (Rule Unit)) : Engine Unit :=
  let concept : Concept Unit :=
    ⟨"Duet", [.action "lead", .action "follow"], fun _ input => pure input, fun _ _ => pure []⟩
  ⟨⟨[⟨concept, .action "lead", "Duet.lead"⟩, ⟨concept, .action "follow", "Duet.follow"⟩],
    [concept]⟩, rules, {}⟩

def Rule.inTune : Rule Unit :=
  ⟨"InTune", .empty,
    { whenPatterns :=
        [(Pattern.of ⟨0⟩).withInput "note" (.var ⟨1⟩), (Pattern.of ⟨1⟩).withInput "note" (.var ⟨1⟩)]
      thenPatterns := [] }⟩

private def followed : Option Nat := do
  let start := Run.start ⟨(), .empty, 0⟩ none
  let led := [(⟨0⟩, [("note", .ofInt 1)]), (⟨0⟩, [("note", .ofInt 2)])]
  let (_, p) ← Run.invokesWithin (.duet [.inTune]) 3 led start
  let l ← Run.opening (.duet [.inTune]) ⟨1⟩ [("note", .number (.float (.ofInt 1)))] p
  let m ← l.matching?
  return (m.joined 0 .inTune).length

/-- The completion that follows joins with the one of the two that led whose note has its value. -/
theorem inTune_hands_all_choices :
    ∃ earlier l m, Run.Course (.duet [.inTune]) True earlier l ∧
      (Engine.duet [.inTune]).rules[0]? = some .inTune ∧
      (Rule.inTune.clauses.whenPatterns.map Pattern.action).Nodup ∧ l.matching? = some m ∧
      ∃ choice : Choice Unit, choice.Valid 0 .inTune earlier m ∧
        m.handed 0 .inTune = [.evaluate .inTune [choice.merged] m.record] := by
  have hfollowed : followed = some 1 := by decide +kernel
  unfold followed at hfollowed
  obtain ⟨⟨earlier, p⟩, hled, hfollowed⟩ := Option.bind_eq_some_iff.mp hfollowed
  obtain ⟨l, hopening, hfollowed⟩ := Option.bind_eq_some_iff.mp hfollowed
  obtain ⟨m, hmatching, hfollowed⟩ := Option.bind_eq_some_iff.mp hfollowed
  have hlength : (m.joined 0 .inTune).length = 1 := Option.some.inj hfollowed
  have hopened : Run.Life (.duet [.inTune]) [] (Run.start ⟨(), .empty, 0⟩ none) :=
    .start ⟨[], rfl⟩ (by simp [RecordStore.empty])
  have course := (hopened.invokesWithin hled).course.invoke ⟨1⟩ _ hopening
  have hdistinct : (Rule.inTune.clauses.whenPatterns.map Pattern.action).Nodup := by decide
  obtain ⟨_, _, choices, _, hvalid, hjoined, hhanded⟩ :=
    (course.hands_all_choices (k := 0) rfl hdistinct).1 m hmatching
  rw [hjoined, List.length_map] at hlength
  obtain ⟨choice, rfl⟩ := List.length_eq_one_iff.mp hlength
  exact ⟨_, l, m, course, rfl, hdistinct, hmatching, choice,
    (hvalid choice).mp (List.mem_singleton_self _), hhanded⟩

end ConceptSync
