import ConceptSync.Proofs.Frame.Templates
import ConceptSync.Proofs.Rule.Building

set_option autoImplicit false
set_option relaxedAutoImplicit false

/-!
What the check of a rule is worth. A pattern passes it exactly if it names a registered action and
constrains declared fields alone, so a rule that was built makes only invocations within the
declarations: a template resolves to its own fields whatever frame it is resolved in.
-/

namespace ConceptSync

variable {σ : Type}

def Operation.Admits (op : Operation) (fields : List String) : Prop :=
  ∀ declared, op.input = some declared → ∀ field ∈ fields, field ∈ declared

def Registry.Declares (r : Registry σ) (action : ActionId) (fields : List String) : Prop :=
  ∃ e, r.entry? action = some e ∧ e.operation.kind = .action ∧ e.operation.Admits fields

namespace Registry

variable {r : Registry σ}

private theorem undeclared?_eq_none {declared : Option (List String)} {fields : List String} :
    undeclared? declared fields = none ↔
      ∀ names, declared = some names → ∀ field ∈ fields, field ∈ names := by
  cases declared with
  | none => simp [undeclared?]
  | some names => simp [undeclared?]

private theorem validate_ok {p : Pattern} :
    r.validate p false = .ok () ↔ r.Declares p.action p.input.keys := by
  unfold validate Declares
  cases hentry : r.entry? p.action with
  | none => simp
  | some e =>
    by_cases hkind : e.operation.kind = .action
    · have houtput : undeclared? e.operation.output [] = none := by
        simp [undeclared?_eq_none]
      cases hinput : undeclared? e.operation.input p.input.keys with
      | none =>
        have hadmits : e.operation.Admits p.input.keys := undeclared?_eq_none.mp hinput
        simp [hkind, hinput, houtput, hadmits]
      | some field =>
        have hrejects : ¬e.operation.Admits p.input.keys := by
          intro hadmits
          rw [undeclared?_eq_none.mpr hadmits] at hinput
          cases hinput
        simp [hkind, hinput, hrejects]
    · simp [hkind]

theorem Declares.mono {action : ActionId} {fields fewer : List String}
    (h : r.Declares action fields) (hsub : fewer ⊆ fields) : r.Declares action fewer := by
  obtain ⟨e, hentry, hkind, hadmits⟩ := h
  exact ⟨e, hentry, hkind, fun declared hdeclared field hfield =>
    hadmits declared hdeclared field (hsub hfield)⟩

theorem perform_of_entry {action : ActionId} {e : Entry σ} (h : r.entry? action = some e)
    (input : Payload) : r.perform action input = e.concept.perform e.operation.name input := by
  simp [perform, h]

end Registry

namespace Rule

def Declared (registry : Registry σ) (rule : Rule σ) : Prop :=
  ∀ p ∈ rule.clauses.thenPatterns, registry.Declares p.action p.input.keys

private theorem validateAll_ok {registry : Registry σ} {checkOutput : Bool} {ps : List Pattern} :
    validateAll registry checkOutput ps = .ok () ↔
      ∀ p ∈ ps, registry.validate p checkOutput = .ok () := by
  induction ps with
  | nil => simp [validateAll]
  | cons p rest ih =>
    cases hp : registry.validate p checkOutput with
    | ok => simp [validateAll, hp, ih]
    | error e => simp [validateAll, hp]

theorem declared_of_instantiateAll {registry : Registry σ} {ds : List (RuleDefinition σ)}
    {next : Nat} {rules : List (Rule σ)} (h : instantiateAll registry ds next = .ok rules) :
    ∀ rule ∈ rules, rule.Declared registry := by
  intro rule hrule
  obtain ⟨k, hk, rfl⟩ := List.mem_iff_getElem.mp hrule
  have hbuilt := instantiateAll_ok h
  obtain ⟨_, _, hinstance⟩ := hbuilt.get (hbuilt.length_eq ▸ hk) hk
  obtain ⟨_, _, _, hthen⟩ := instantiate_ok hinstance
  exact fun p hp => Registry.validate_ok.mp (validateAll_ok.mp hthen p hp)

end Rule

end ConceptSync
