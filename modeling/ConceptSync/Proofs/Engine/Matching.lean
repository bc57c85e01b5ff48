import ConceptSync.Engine.Step

set_option autoImplicit false
set_option relaxedAutoImplicit false

/-!
Matching rule by rule. A completion is offered to every rule in the rule's own join state, so what
it does to one rule is told by the position of the rule alone.
-/

namespace ConceptSync

variable {σ : Type}

namespace Run

/-- The pending frames of the rule at a position. -/
def joinState (run : Run σ) (k : Nat) (rule : Rule σ) : JoinState :=
  run.joins[k]?.getD (.empty rule.clauses.whenPatterns.length)

/-- What a completion joins in the rule at a position, and what is pending there afterwards. -/
def offered (run : Run σ) (action : ActionId) (record : Record) (k : Nat) (rule : Rule σ) :
    List Joined × JoinState :=
  offerSlots action record 0 rule.clauses.whenPatterns (run.joinState k rule)

/-- The rules that a completion joins in, in order, with the joined frames. -/
def firings (run : Run σ) (action : ActionId) (record : Record) (rules : List (Rule σ)) :
    List (Rule σ × List Frame) :=
  (rules.mapIdx fun k rule => (rule, (run.offered action record k rule).1.map Joined.frame)).filter
    fun firing => !firing.2.isEmpty

/-- The run after a completion was offered to every rule. -/
def matched (run : Run σ) (action : ActionId) (record : Record) (rules : List (Rule σ)) : Run σ :=
  { run with
    seen := record.id :: run.seen
    joins := rules.mapIdx fun k rule => (run.offered action record k rule).2 }

end Run

private theorem offerRules_eq_mapIdx (action : ActionId) (record : Record) (rules : List (Rule σ))
    (states : List JoinState) :
    offerRules action record rules states =
      let offered := fun k (rule : Rule σ) =>
        offerSlots action record 0 rule.clauses.whenPatterns
          (states[k]?.getD (.empty rule.clauses.whenPatterns.length))
      (((rules.mapIdx fun k rule => (rule, (offered k rule).1.map Joined.frame)).filter
          fun firing => !firing.2.isEmpty).map fun firing => .evaluate firing.1 firing.2 record,
        rules.mapIdx fun k rule => (offered k rule).2) := by
  induction rules generalizing states with
  | nil => rfl
  | cons rule rules ih =>
    have hhead : states.headD (.empty rule.clauses.whenPatterns.length) =
        states[0]?.getD (.empty rule.clauses.whenPatterns.length) := by
      cases states <;> rfl
    have htail : ∀ k, states[k + 1]? = states.tail[k]? := by
      intro k
      cases states <;> rfl
    simp only [offerRules, hhead, List.mapIdx_cons, htail, ih states.tail, List.filter_cons,
      List.isEmpty_map]
    split
    · next h => simp [h]
    · next h => simp [h]

/-- A completion that was not matched before is offered to every rule, and the rules that joined
are to be evaluated. -/
theorem completeRecord_of_unseen {engine : Engine σ} {record : Record} {run : Run σ}
    (action : ActionId) (h : record.id ∉ run.seen) :
    completeRecord engine action record run =
      ((run.firings action record engine.rules).map
          fun firing => .evaluate firing.1 firing.2 record,
        run.matched action record engine.rules) := by
  unfold completeRecord
  rw [if_neg h, offerRules_eq_mapIdx]
  rfl

theorem completeRecord_of_seen {engine : Engine σ} {record : Record} {run : Run σ}
    (action : ActionId) (h : record.id ∈ run.seen) :
    completeRecord engine action record run = ([], run) := by
  unfold completeRecord
  rw [if_pos h]

theorem Run.joinState_matched {run : Run σ} {rules : List (Rule σ)} {k : Nat} {rule : Rule σ}
    (action : ActionId) (record : Record) (h : rules[k]? = some rule) :
    (run.matched action record rules).joinState k rule = (run.offered action record k rule).2 := by
  simp [Run.joinState, Run.matched, List.getElem?_mapIdx, h]

/-- A completion being matched for the first time, and the run it is matched in. -/
structure Matching (σ : Type) where
  action : ActionId
  record : Record
  run : Run σ

namespace Matching

def joined (m : Matching σ) (k : Nat) (rule : Rule σ) : List Joined :=
  (m.run.offered m.action m.record k rule).1

def pending (m : Matching σ) (k : Nat) (rule : Rule σ) : JoinState :=
  (m.run.offered m.action m.record k rule).2

end Matching

/-- A run's join states and seen completions are what these matchings made, one after the other. -/
inductive Matched (rules : List (Rule σ)) : List (Matching σ) → Run σ → Prop
  | fresh {run : Run σ} : run.joins = [] → run.seen = [] → Matched rules [] run
  | matching {earlier : List (Matching σ)} {m : Matching σ} {run : Run σ} :
      Matched rules earlier m.run → m.record.id ∉ m.run.seen →
      run.joins = (m.run.matched m.action m.record rules).joins →
      run.seen = m.record.id :: m.run.seen → Matched rules (earlier ++ [m]) run

namespace Matched

theorem congr {rules : List (Rule σ)} {ms : List (Matching σ)} {run run' : Run σ}
    (h : Matched rules ms run) (hjoins : run'.joins = run.joins) (hseen : run'.seen = run.seen) :
    Matched rules ms run' := by
  cases h with
  | fresh hj hs => exact .fresh (hjoins.trans hj) (hseen.trans hs)
  | matching hm hunseen hj hs =>
    exact .matching hm hunseen (hjoins.trans hj) (hseen.trans hs)

theorem mem_seen {rules : List (Rule σ)} {ms : List (Matching σ)} {run : Run σ}
    (h : Matched rules ms run) (id : Uuid) : id ∈ run.seen ↔ ∃ m ∈ ms, m.record.id = id := by
  induction h with
  | fresh _ hseen => simp [hseen]
  | matching _ _ _ hseen ih =>
    rw [hseen, List.mem_cons, ih]
    simp only [List.mem_append, List.mem_singleton]
    constructor
    · rintro (rfl | ⟨m, hm, rfl⟩)
      · exact ⟨_, .inr rfl, rfl⟩
      · exact ⟨m, .inl hm, rfl⟩
    · rintro ⟨m, hm | rfl, rfl⟩
      · exact .inr ⟨m, hm, rfl⟩
      · exact .inl rfl

end Matched

end ConceptSync
