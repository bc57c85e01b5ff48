import ConceptSync.Proofs.Engine.Course
import ConceptSync.Proofs.Join.Offer

set_option autoImplicit false
set_option relaxedAutoImplicit false

/-!
Consumption by firings over the life of a run. A completion that takes part in a firing of a rule
takes part in no firing of it that a later completion triggers, unless it was held again while it
was still being offered itself.
-/

namespace ConceptSync

variable {σ : Type}

namespace Matching

/-- A completion is in some combination that this one joins. -/
def TakesPart (m : Matching σ) (k : Nat) (rule : Rule σ) (seq : Int) : Prop :=
  ∃ j ∈ m.joined k rule, seq ∈ j.seqs

instance (m : Matching σ) (k : Nat) (rule : Rule σ) (seq : Int) :
    Decidable (m.TakesPart k rule seq) :=
  inferInstanceAs (Decidable (∃ j ∈ m.joined k rule, seq ∈ j.seqs))

/-- The completion joined in the rule and still pends there once it was offered to all patterns. -/
def LeftPending (m : Matching σ) (k : Nat) (rule : Rule σ) : Prop :=
  m.joined k rule ≠ [] ∧ (m.pending k rule).Pends m.record.seq

def matchCount (m : Matching σ) (rule : Rule σ) : Nat :=
  rule.clauses.whenPatterns.countP fun p =>
    (p.unify? m.action m.record.input m.record.output).isSome

private theorem takesPart_cases {m : Matching σ} {k : Nat} {rule : Rule σ} {seq : Int}
    (h : m.TakesPart k rule seq) :
    seq = m.record.seq ∨ (m.run.joinState k rule).Pends seq := by
  obtain ⟨j, hj, hseq⟩ := h
  exact (seqs_offerSlots hj).2 seq hseq

theorem takesPart_self {m : Matching σ} {k : Nat} {rule : Rule σ} (h : m.joined k rule ≠ []) :
    m.TakesPart k rule m.record.seq := by
  obtain ⟨j, hj⟩ := List.exists_mem_of_ne_nil _ h
  exact ⟨j, hj, (seqs_offerSlots hj).1⟩

private theorem leftPending_of_pends {m : Matching σ} {k : Nat} {rule : Rule σ} {seq : Int}
    (h : m.TakesPart k rule seq) (hpends : (m.pending k rule).Pends seq) :
    seq = m.record.seq ∧ m.LeftPending k rule := by
  obtain ⟨j, hj, hseq⟩ := h
  have hown : seq = m.record.seq := by
    by_contra hother
    exact not_pends_offerSlots hj hseq hother hpends
  exact ⟨hown, List.ne_nil_of_mem hj, hown ▸ hpends⟩

private theorem not_leftPending_of_matchCount {m : Matching σ} {k : Nat} {rule : Rule σ}
    (h : m.matchCount rule ≤ 1) : ¬ m.LeftPending k rule := by
  rintro ⟨hjoined, hpends⟩
  exact not_pends_of_count_le_one h hjoined hpends

end Matching

/-- What the join state of a rule owes to the matchings so far: only their completions pend and take
part, and what took part and still pends was left pending. -/
structure Accounted (k : Nat) (rule : Rule σ) (ms : List (Matching σ)) (state : JoinState) :
    Prop where
  pending : ∀ seq, state.Pends seq → ∃ m ∈ ms, m.record.seq = seq
  joined : ∀ m ∈ ms, ∀ seq, m.TakesPart k rule seq → ∃ m' ∈ ms, m'.record.seq = seq
  consumed : ∀ m ∈ ms, ∀ seq, m.TakesPart k rule seq → state.Pends seq →
    seq = m.record.seq ∧ m.LeftPending k rule

namespace Accounted

variable {k : Nat} {rule : Rule σ} {ms : List (Matching σ)}

private theorem snoc {m : Matching σ} (h : Accounted k rule ms (m.run.joinState k rule))
    (hnew : ∀ m' ∈ ms, m'.record.seq ≠ m.record.seq) :
    Accounted k rule (ms ++ [m]) (m.pending k rule) := by
  have hpends : ∀ seq, (m.pending k rule).Pends seq →
      (m.run.joinState k rule).Pends seq ∨ seq = m.record.seq := fun _ => pends_offerSlots
  constructor
  · intro seq hseq
    rcases hpends seq hseq with hbefore | rfl
    · obtain ⟨m', hm', heq⟩ := h.pending seq hbefore
      exact ⟨m', List.mem_append_left _ hm', heq⟩
    · exact ⟨m, by simp, rfl⟩
  · intro m' hm' seq hpart
    rcases List.mem_append.mp hm' with hm' | hm'
    · obtain ⟨m'', hm'', heq⟩ := h.joined m' hm' seq hpart
      exact ⟨m'', List.mem_append_left _ hm'', heq⟩
    · obtain rfl := List.mem_singleton.mp hm'
      rcases Matching.takesPart_cases hpart with rfl | hbefore
      · exact ⟨m', by simp, rfl⟩
      · obtain ⟨m'', hm'', heq⟩ := h.pending seq hbefore
        exact ⟨m'', List.mem_append_left _ hm'', heq⟩
  · intro m' hm' seq hpart hseq
    rcases List.mem_append.mp hm' with hm' | hm'
    · rcases hpends seq hseq with hbefore | rfl
      · exact h.consumed m' hm' seq hpart hbefore
      · obtain ⟨m'', hm'', heq⟩ := h.joined m' hm' _ hpart
        exact absurd heq (hnew m'' hm'')
    · obtain rfl := List.mem_singleton.mp hm'
      exact Matching.leftPending_of_pends hpart hseq

end Accounted

theorem Matched.seq_ne {rules : List (Rule σ)} {earlier : List (Matching σ)} {m : Matching σ}
    (h : Matched rules earlier m.run) (hunseen : m.record.id ∉ m.run.seen)
    (hissued : ∀ m' ∈ earlier ++ [m], m'.record.Issued) :
    ∀ m' ∈ earlier, m'.record.seq ≠ m.record.seq := by
  intro m' hm' heq
  have hid := (hissued m' (by simp [hm'])).id_eq (hissued m (by simp)) heq
  exact hunseen ((h.mem_seen _).mpr ⟨m', hm', hid⟩)

theorem Matched.accounted {rules : List (Rule σ)} {ms : List (Matching σ)} {run : Run σ} {k : Nat}
    {rule : Rule σ} (h : Matched rules ms run) (hrule : rules[k]? = some rule)
    (hissued : ∀ m ∈ ms, m.record.Issued) : Accounted k rule ms (run.joinState k rule) := by
  induction h with
  | @fresh run hjoins _ =>
    have hstate : run.joinState k rule = .empty rule.clauses.whenPatterns.length := by
      simp [Run.joinState, hjoins]
    rw [hstate]
    exact ⟨fun seq h => absurd h (JoinState.not_pends_empty _ _), by simp, by simp⟩
  | @matching earlier m run hearlier hunseen hjoins _ ih =>
    have hstate : run.joinState k rule = m.pending k rule := by
      unfold Run.joinState
      rw [hjoins]
      exact Run.joinState_matched m.action m.record hrule
    rw [hstate]
    exact (ih fun m' hm' => hissued m' (by simp [hm'])).snoc (hearlier.seq_ne hunseen hissued)

/-- No completion takes part in firings of the rule that different completions trigger. -/
def ConsumedOnce (k : Nat) (rule : Rule σ) (ms : List (Matching σ)) : Prop :=
  ms.Pairwise fun earlier later =>
    ∀ seq, earlier.TakesPart k rule seq → ¬ later.TakesPart k rule seq

/-- No completion that was left pending when it joined joins again. -/
def NeverJoinsAgain (k : Nat) (rule : Rule σ) (ms : List (Matching σ)) : Prop :=
  ms.Pairwise fun earlier later =>
    earlier.LeftPending k rule → ¬ later.TakesPart k rule earlier.record.seq

private theorem shares_iff_joins_again {k : Nat} {rule : Rule σ} {ms : List (Matching σ)}
    {e m : Matching σ} (h : Accounted k rule ms (m.run.joinState k rule))
    (hnew : ∀ m' ∈ ms, m'.record.seq ≠ m.record.seq) (he : e ∈ ms) :
    (∀ seq, e.TakesPart k rule seq → ¬ m.TakesPart k rule seq) ↔
      (e.LeftPending k rule → ¬ m.TakesPart k rule e.record.seq) := by
  constructor
  · intro hshares hleft
    exact hshares _ (Matching.takesPart_self hleft.1)
  · intro hagain seq hearlier hlater
    rcases Matching.takesPart_cases hlater with rfl | hpends
    · obtain ⟨m', hm', heq⟩ := h.joined e he _ hearlier
      exact hnew m' hm' heq
    · obtain ⟨rfl, hleft⟩ := h.consumed e he seq hearlier hpends
      exact hagain hleft hlater

private theorem consumedOnce_iff_of_matched {rules : List (Rule σ)} {ms : List (Matching σ)}
    {run : Run σ} {k : Nat} {rule : Rule σ} (h : Matched rules ms run)
    (hrule : rules[k]? = some rule) (hissued : ∀ m ∈ ms, m.record.Issued) :
    ConsumedOnce k rule ms ↔ NeverJoinsAgain k rule ms := by
  induction h with
  | fresh _ _ => simp [ConsumedOnce, NeverJoinsAgain]
  | @matching earlier m run hearlier hunseen _ _ ih =>
    have hissued' : ∀ m' ∈ earlier, m'.record.Issued := fun m' hm' => hissued m' (by simp [hm'])
    have hnew := hearlier.seq_ne hunseen hissued
    have haccount := hearlier.accounted hrule hissued'
    have hih := ih hissued'
    -- the last completion is compared with each earlier one, the earlier ones by induction
    unfold ConsumedOnce NeverJoinsAgain at hih ⊢
    rw [List.pairwise_append, List.pairwise_append, hih]
    simp only [List.pairwise_singleton, List.mem_singleton, forall_eq, true_and]
    constructor
    · rintro ⟨hbefore, hlast⟩
      exact ⟨hbefore, fun e he => (shares_iff_joins_again haccount hnew he).mp (hlast e he)⟩
    · rintro ⟨hbefore, hlast⟩
      exact ⟨hbefore, fun e he => (shares_iff_joins_again haccount hnew he).mpr (hlast e he)⟩

/-- Over the life of a run, firings of a rule that different completions trigger share a completion
exactly when one that joined was left pending and joins again. They share none if no completion of
the run matches two patterns of the rule. -/
theorem Run.Life.consumedOnce_iff {engine : Engine σ} {ms : List (Matching σ)}
    {p : Progress σ RecordStore} (live : Life engine ms p) {k : Nat} {rule : Rule σ}
    (hrule : engine.rules[k]? = some rule) :
    (ConsumedOnce k rule ms ↔ NeverJoinsAgain k rule ms) ∧
      ((∀ m ∈ ms, m.matchCount rule ≤ 1) → ConsumedOnce k rule ms) := by
  have hiff := consumedOnce_iff_of_matched live.matched hrule live.sound.2
  refine ⟨hiff, fun hcount => hiff.mpr ?_⟩
  have hleft : ms.Pairwise fun earlier _ => ¬ earlier.LeftPending k rule :=
    List.pairwise_of_forall_mem_list fun e he _ _ =>
      Matching.not_leftPending_of_matchCount (hcount e he)
  exact hleft.imp fun hnot hleft => absurd hleft hnot

def Rule.pairs : Rule Unit :=
  ⟨"Pairs", .empty, { whenPatterns := [.of ⟨0⟩, .of ⟨0⟩], thenPatterns := [] }⟩

private def sharesSecond : Option (List (Matching Unit) × Progress Unit RecordStore) → Bool
  | some ([_, second, third], _) => second.TakesPart 0 .pairs 2 && third.TakesPart 0 .pairs 2
  | _ => false

private theorem sharesSecond_cases
    {result : Option (List (Matching Unit) × Progress Unit RecordStore)}
    (h : sharesSecond result = true) :
    ∃ first second third p, result = some ([first, second, third], p) ∧
      second.TakesPart 0 .pairs 2 ∧ third.TakesPart 0 .pairs 2 := by
  unfold sharesSecond at h
  split at h
  · next first second third p =>
    simp only [Bool.and_eq_true, decide_eq_true_eq] at h
    exact ⟨first, second, third, p, rfl, h⟩
  · cases h

private theorem pairs_life :
    ∃ first second third p, Run.Life (.echo [.pairs] {}) [first, second, third] p ∧
      second.TakesPart 0 .pairs 2 ∧ third.TakesPart 0 .pairs 2 := by
  have hshared : sharesSecond (Run.invokesWithin (.echo [.pairs] {}) 3
      [(⟨0⟩, []), (⟨0⟩, []), (⟨0⟩, [])] (Run.start ⟨(), .empty, 0⟩ none)) = true := by
    decide +kernel
  obtain ⟨first, second, third, p, hinvokes, hpart⟩ := sharesSecond_cases hshared
  have hopened : Run.Life (.echo [.pairs] {}) [] (Run.start ⟨(), .empty, 0⟩ none) :=
    .start ⟨[], rfl⟩ (by simp [RecordStore.empty])
  exact ⟨first, second, third, p, hopened.invokesWithin hinvokes, hpart⟩

/-- Three completions of the action: the rule that pairs them fires twice. -/
theorem pairs_not_consumedOnce :
    ∃ ms p, Run.Life (.echo [.pairs] {}) ms p ∧ ¬ ConsumedOnce 0 .pairs ms := by
  obtain ⟨first, second, third, p, live, hsecond, hthird⟩ := pairs_life
  refine ⟨_, p, live, fun honce => ?_⟩
  simp only [ConsumedOnce, List.pairwise_cons] at honce
  exact honce.2.1 third (by simp) 2 hsecond hthird

theorem consumedOnce_iff_pairs :
    ∃ ms p, Run.Life (.echo [.pairs] {}) ms p ∧ ms.length = 3 ∧
      (ConsumedOnce 0 .pairs ms ↔ NeverJoinsAgain 0 .pairs ms) := by
  obtain ⟨first, second, third, p, live, _⟩ := pairs_life
  exact ⟨_, p, live, rfl, (live.consumedOnce_iff rfl).1⟩

end ConceptSync
