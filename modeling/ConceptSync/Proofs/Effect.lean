import ConceptSync.Effect

set_option autoImplicit false
set_option relaxedAutoImplicit false

/-!
Computations that only ask: they leave the world as it is and are not broken off. What they give, if
they do not fail, is told by a predicate, in the order in which the computation is written. Others
keep at least a view of the world.
-/

namespace ConceptSync

namespace Effect

variable {σ α β : Type}

def Asks (e : Effect σ α) (P : α → Prop) : Prop :=
  ∀ s, (∃ a, e s = (.ok a, s) ∧ P a) ∨ ∃ failure, e s = (.failed failure, s)

namespace Asks

variable {P Q : α → Prop} {R : β → Prop}

theorem pure {a : α} (h : P a) : (Pure.pure a : Effect σ α).Asks P := fun _ => .inl ⟨a, rfl, h⟩

theorem fail (failure : Failure) : (Effect.fail failure : Effect σ α).Asks P :=
  fun _ => .inr ⟨failure, rfl⟩

theorem read {f : σ → α} (h : ∀ s, P (f s)) : (Effect.read f).Asks P :=
  fun s => .inl ⟨f s, rfl, h s⟩

theorem bind {e : Effect σ α} {f : α → Effect σ β} (he : e.Asks P) (hf : ∀ a, P a → (f a).Asks R) :
    (e >>= f).Asks R := by
  intro s
  change (∃ b, Effect.bind e f s = _ ∧ R b) ∨ ∃ failure, Effect.bind e f s = _
  unfold Effect.bind
  rcases he s with ⟨a, heq, ha⟩ | ⟨failure, heq⟩
  · rw [heq]
    exact hf a ha s
  · rw [heq]
    exact .inr ⟨failure, rfl⟩

theorem mono {e : Effect σ α} (he : e.Asks P) (h : ∀ a, P a → Q a) : e.Asks Q := by
  intro s
  rcases he s with ⟨a, heq, ha⟩ | hfailed
  · exact .inl ⟨a, heq, h a ha⟩
  · exact .inr hfailed

end Asks

theorem bind_of_ok {e : Effect σ α} {f : α → Effect σ β} {a : α} {s s' : σ}
    (he : e s = (.ok a, s')) : (e >>= f) s = f a s' := by
  change Effect.bind e f s = f a s'
  simp only [Effect.bind, he]

theorem bind_of_broken {e : Effect σ α} {f : α → Effect σ β} {b : Break} {s s' : σ}
    (he : e s = (.broken b, s')) : (e >>= f) s = (.broken b, s') := by
  change Effect.bind e f s = (.broken b, s')
  simp only [Effect.bind, he]

theorem view_bind {γ : Type} (view : σ → γ) {e : Effect σ α} {f : α → Effect σ β}
    (he : ∀ s, view (e s).2 = view s) (hf : ∀ a s, view (f a s).2 = view s) (s : σ) :
    view ((e >>= f) s).2 = view s := by
  change view (Effect.bind e f s).2 = view s
  have hfirst := he s
  unfold Effect.bind
  rcases hrun : e s with ⟨a | failure | b, after⟩ <;> rw [hrun] at hfirst
  · exact (hf a after).trans hfirst
  · exact hfirst
  · exact hfirst

end Effect

end ConceptSync
