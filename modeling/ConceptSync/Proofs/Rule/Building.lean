import Mathlib.Data.List.Nodup
import Mathlib.Data.List.Range
import ConceptSync.Rule

set_option autoImplicit false
set_option relaxedAutoImplicit false

/-!
How rules are built: what each step of a builder gives when it succeeds, and that building a list
of rules builds each of them over a fresh scope.
-/

namespace ConceptSync

variable {σ : Type}

namespace Builder

variable {α β : Type}

private theorem bind_eq_ok {x : Builder α} {f : α → Builder β} {s t : Naming} {b : β} :
    (x >>= f) s = .ok (b, t) ↔ ∃ a u, x s = .ok (a, u) ∧ f a u = .ok (b, t) := by
  change (x s >>= fun r => f r.1 r.2) = _ ↔ _
  cases hx : x s with
  | error failure => simp [bind, Except.bind]
  | ok r =>
    obtain ⟨a, u⟩ := r
    simp [bind, Except.bind]

def Ensures (x : Builder α) (P : α → Prop) : Prop := ∀ s a t, x s = .ok (a, t) → P a

namespace Ensures

variable {P : α → Prop} {Q : β → Prop}

theorem pure {a : α} (h : P a) : Ensures (Pure.pure a) P := by
  intro s b t heq
  cases heq
  exact h

theorem bind {x : Builder α} {f : α → Builder β} (hx : x.Ensures P)
    (hf : ∀ a, P a → (f a).Ensures Q) : (x >>= f).Ensures Q := by
  intro s b t h
  obtain ⟨a, u, ha, hb⟩ := bind_eq_ok.mp h
  exact hf a (hx s a u ha) u b t hb

theorem ofExcept (e : Except EngineError α) : (ofExcept e).Ensures fun a => e = .ok a := by
  intro s a t h
  cases e with
  | error failure => cases h
  | ok b =>
    cases h
    rfl

theorem var {name : String} {f : Var → Builder β} (hf : ∀ v, (f v).Ensures Q) :
    (var name >>= f).Ensures Q :=
  bind (P := fun _ => True) (fun _ _ _ _ => trivial) fun v _ => hf v

theorem vars {names : List String} {f : List Var → Builder β} (hf : ∀ vs, (f vs).Ensures Q) :
    (vars names >>= f).Ensures Q :=
  bind (P := fun _ => True) (fun _ _ _ _ => trivial) fun vs _ => hf vs

end Ensures

end Builder

private theorem Scope.vars_of_fresh {names : List String} (hnames : names.Nodup) {scope : Scope}
    (hfresh : ∀ name ∈ names, scope.find? name = none) (next : Nat) :
    (scope.vars next names).1 = (List.range' next names.length).map Var.mk := by
  induction names generalizing scope next with
  | nil => rfl
  | cons name rest ih =>
    obtain ⟨hname, hrest⟩ := List.nodup_cons.mp hnames
    have hnone := hfresh name (List.mem_cons_self ..)
    have hlater : ∀ other ∈ rest,
        (Scope.mk (scope.entries ++ [(name, ⟨next⟩)])).find? other = none := by
      intro other hother
      have hne : name ≠ other := fun heq => hname (heq ▸ hother)
      have hold := hfresh other (List.mem_cons_of_mem _ hother)
      simp only [find?, Option.map_eq_none_iff] at hold ⊢
      simp [List.find?_append, hold, hne]
    simp [vars, var, hnone, ih hrest hlater, List.range'_succ]

@[elab_as_elim]
theorem Builder.Ensures.of_fresh {β : Type} {P : β → Prop} {name : String} {names : List String}
    (hnames : (name :: names).Nodup) {f : Var → List Var → Builder β} {next : Nat} {b : β}
    {t : Naming}
    (h : (Builder.var name >>= fun v => Builder.vars names >>= f v) ⟨.empty, next⟩ = .ok (b, t))
    (hf : ∀ v vs, (v :: vs).Nodup → vs.length = names.length → (f v vs).Ensures P) : P b := by
  obtain ⟨v, s, hv, h⟩ := bind_eq_ok.mp h
  obtain ⟨vs, u, hvs, h⟩ := bind_eq_ok.mp h
  cases hv
  cases hvs
  obtain ⟨hname, hrest⟩ := List.nodup_cons.mp hnames
  have hfresh : ∀ other ∈ names, (Scope.mk [(name, ⟨next⟩)]).find? other = none := by
    intro other hother
    have hne : name ≠ other := fun heq => hname (heq ▸ hother)
    simp [Scope.find?, hne]
  have htokens := Scope.vars_of_fresh hrest hfresh (next + 1)
  refine hf _ _ ?_ ?_ _ _ _ h
  · change (Var.mk next :: ((Scope.mk [(name, ⟨next⟩)]).vars (next + 1) names).1).Nodup
    rw [htokens, ← List.map_cons, ← List.range'_succ]
    exact List.Nodup.map (fun _ _ hab => congrArg Var.id hab) List.nodup_range'
  · change ((Scope.mk [(name, ⟨next⟩)]).vars (next + 1) names).1.length = names.length
    rw [htokens, List.length_map, List.length_range']

namespace Builder

variable {α β : Type} {made : List (String × Var)}

def EnsuresOver (made : List (String × Var)) (x : Builder α) (P : α → Prop) : Prop :=
  ∀ next a t, (∀ e ∈ made, e.2.id < next) → x ⟨⟨made⟩, next⟩ = .ok (a, t) → P a

namespace EnsuresOver

variable {P : α → Prop} {Q : β → Prop}

theorem of_ensures {x : Builder α} (h : x.Ensures P) : x.EnsuresOver made P :=
  fun _ _ _ _ hx => h _ _ _ hx

theorem var {name : String} {f : Var → Builder β} (hname : name ∉ made.map Prod.fst)
    (hf : ∀ v, v ∉ made.map Prod.snd → (f v).EnsuresOver (made ++ [(name, v)]) Q) :
    (Builder.var name >>= f).EnsuresOver made Q := by
  intro next b t hbound h
  obtain ⟨v, u, hv, h⟩ := bind_eq_ok.mp h
  have hnone : (Scope.mk made).find? name = none := by
    simp only [Scope.find?, Option.map_eq_none_iff, List.find?_eq_none]
    exact fun e he heq => hname (List.mem_map.mpr ⟨e, he, beq_iff_eq.mp heq⟩)
  simp only [Builder.var, Scope.var, hnone] at hv
  cases hv
  refine hf ⟨next⟩ (fun hmem => ?_) _ _ _ (fun e he => ?_) h
  · obtain ⟨e, he, heq⟩ := List.mem_map.mp hmem
    have hless := hbound e he
    rw [heq] at hless
    exact Nat.lt_irrefl _ hless
  · rcases List.mem_append.mp he with hold | hnew
    · exact Nat.lt_succ_of_lt (hbound e hold)
    · obtain rfl := List.mem_singleton.mp hnew
      exact Nat.lt_succ_self next

end EnsuresOver

end Builder

/-- A rule whose clauses a definition built over a fresh scope. -/
def RuleDefinition.Builds (registry : Registry σ) (d : RuleDefinition σ) (rule : Rule σ) : Prop :=
  ∃ next naming, d.build registry ⟨.empty, next⟩ = .ok (rule.clauses, naming)

/-- What the clauses of a definition ensure holds of the rules it builds. -/
@[elab_as_elim]
theorem RuleDefinition.Builds.elim {registry : Registry σ} {d : RuleDefinition σ} {rule : Rule σ}
    {P : Rule σ → Prop} (hbuilds : d.Builds registry rule)
    (h : (d.build registry).Ensures fun clauses =>
      ∀ rule : Rule σ, rule.clauses = clauses → P rule) : P rule := by
  obtain ⟨next, naming, hbuild⟩ := hbuilds
  exact h _ _ _ hbuild rule rfl

@[elab_as_elim]
theorem RuleDefinition.Builds.elim_over {registry : Registry σ} {d : RuleDefinition σ}
    {rule : Rule σ} {P : Rule σ → Prop} (hbuilds : d.Builds registry rule)
    (h : (d.build registry).EnsuresOver [] fun clauses =>
      ∀ rule : Rule σ, rule.clauses = clauses → P rule) : P rule := by
  obtain ⟨next, naming, hbuild⟩ := hbuilds
  exact h _ _ _ (List.forall_mem_nil _) hbuild rule rfl

@[elab_as_elim]
theorem RuleDefinition.Builds.elim_two {registry : Registry σ} {d : RuleDefinition σ}
    {rule : Rule σ} {P : Rule σ → Prop} {first second : String}
    {f : Var → Var → Builder (Clauses σ)} (hbuilds : d.Builds registry rule)
    (hbuild : d.build registry = Builder.var first >>= fun x => Builder.var second >>= f x)
    (hnames : [first, second].Nodup)
    (h : ∀ x y, y ≠ x →
      (f x y).Ensures fun clauses => ∀ rule : Rule σ, rule.clauses = clauses → P rule) :
    P rule := by
  refine hbuilds.elim_over (hbuild ▸ .var List.not_mem_nil fun x _ => .var ?_ fun y hy => ?_)
  · simpa [eq_comm] using hnames
  · exact .of_ensures (h x y (by simpa using hy))

@[elab_as_elim]
theorem RuleDefinition.Builds.elim_three {registry : Registry σ} {d : RuleDefinition σ}
    {rule : Rule σ} {P : Rule σ → Prop} {first second third : String}
    {f : Var → Var → Var → Builder (Clauses σ)} (hbuilds : d.Builds registry rule)
    (hbuild : d.build registry = Builder.var first >>= fun x => Builder.var second >>= fun y =>
      Builder.var third >>= f x y)
    (hnames : [first, second, third].Nodup)
    (h : ∀ x y z, y ≠ x → z ≠ x → z ≠ y →
      (f x y z).Ensures fun clauses => ∀ rule : Rule σ, rule.clauses = clauses → P rule) :
    P rule := by
  simp only [List.nodup_cons, List.mem_cons, List.not_mem_nil, or_false, not_or] at hnames
  refine hbuilds.elim_over (hbuild ▸ .var List.not_mem_nil fun x _ => .var ?_ fun y hy =>
    .var ?_ fun z hz => ?_)
  · simpa [eq_comm] using hnames.1.1
  · simpa [eq_comm] using And.intro hnames.1.2 hnames.2.1
  · simp only [List.nil_append, List.map_cons, List.map_nil, List.map_append, List.mem_append,
      List.mem_cons, List.not_mem_nil, or_false, not_or] at hy hz
    exact .of_ensures (h x y z hy hz.1 hz.2)

theorem Rule.instantiate_ok {registry : Registry σ} {d : RuleDefinition σ} {next next' : Nat}
    {rule : Rule σ} (h : instantiate d registry next = .ok (rule, next')) :
    d.Builds registry rule ∧ rule.clauses.whenPatterns ≠ [] ∧
      validateAll registry true rule.clauses.whenPatterns = .ok () ∧
      validateAll registry false rule.clauses.thenPatterns = .ok () := by
  unfold instantiate at h
  cases hbuild : (d.build registry).run ⟨.empty, next⟩ with
  | error failure => simp [hbuild, bind, Except.bind] at h
  | ok built =>
    obtain ⟨clauses, naming⟩ := built
    simp only [hbuild, bind, Except.bind] at h
    split at h
    · cases h
    · next hwaits =>
      split at h
      · cases h
      · next hwhen =>
        split at h
        · cases h
        · next hthen =>
          cases h
          exact ⟨⟨next, naming, hbuild⟩, by simpa using hwaits, hwhen, hthen⟩

theorem Rule.instantiateAll_ok {registry : Registry σ} {ds : List (RuleDefinition σ)} {next : Nat}
    {rules : List (Rule σ)} (h : instantiateAll registry ds next = .ok rules) :
    List.Forall₂ (fun d rule => ∃ next next', instantiate d registry next = .ok (rule, next'))
      ds rules := by
  induction ds generalizing next rules with
  | nil =>
    cases h
    exact .nil
  | cons d rest ih =>
    simp only [instantiateAll] at h
    cases hrule : instantiate d registry next with
    | error failure => simp [hrule, bind, Except.bind] at h
    | ok built =>
      obtain ⟨rule, next'⟩ := built
      simp only [hrule, bind, Except.bind] at h
      cases hrest : instantiateAll registry rest next' with
      | error failure => simp [hrest] at h
      | ok later =>
        simp only [hrest] at h
        cases h
        exact .cons ⟨next, next', hrule⟩ (ih hrest)

theorem Rule.builds_of_instantiateAll {registry : Registry σ} {ds : List (RuleDefinition σ)}
    {next : Nat} {rules : List (Rule σ)} (h : instantiateAll registry ds next = .ok rules) :
    List.Forall₂ (RuleDefinition.Builds registry) ds rules :=
  (instantiateAll_ok h).imp fun _ _ ⟨_, _, hrule⟩ => (instantiate_ok hrule).1

end ConceptSync
