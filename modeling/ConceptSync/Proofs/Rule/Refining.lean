import ConceptSync.Engine.Step
import ConceptSync.Proofs.Effect
import ConceptSync.Proofs.Frame.Templates

set_option autoImplicit false
set_option relaxedAutoImplicit false

/-!
Refinements that only ask, and variables that survive them: whatever frame is left says of such a
variable what one of the given frames says of it.
-/

namespace ConceptSync

variable {σ : Type}

def Frame.Kept (v : Var) (given left : List Frame) : Prop :=
  ∀ f ∈ left, ∃ g ∈ given, ∀ value, g.get? v = some value → f.get? v = some value

theorem Frame.kept_append {v : Var} {f : Frame} {rest now later : List Frame}
    (hnow : ∀ g ∈ now, ∀ value, f.get? v = some value → g.get? v = some value)
    (hlater : Kept v rest later) : Kept v (f :: rest) (now ++ later) := by
  intro g hg
  rcases List.mem_append.mp hg with hg | hg
  · exact ⟨f, List.mem_cons_self .., hnow g hg⟩
  · obtain ⟨g', hg', hkept⟩ := hlater g hg
    exact ⟨g', List.mem_cons_of_mem _ hg', hkept⟩

def Refinement.Keeps (v : Var) (clause : Refinement σ) : Prop :=
  ∀ frames, (clause frames).Asks (Frame.Kept v frames)

def Refinement.Reads (clause : Refinement σ) : Prop := ∀ frames, (clause frames).Asks fun _ => True

theorem Refinement.Keeps.reads {v : Var} {clause : Refinement σ} (h : clause.Keeps v) :
    clause.Reads := fun frames => (h frames).mono fun _ _ => trivial

theorem Refinement.keeps_filter (keep : Frame → Bool) (v : Var) :
    Refinement.Keeps (σ := σ) v fun frames => pure (frames.filter keep) :=
  fun _ => .pure fun f hf => ⟨f, List.mem_of_mem_filter hf, fun _ h => h⟩

theorem Refinement.Keeps.filter {v : Var} {clause : Refinement σ} (h : clause.Keeps v)
    (keep : Frame → Bool) : Refinement.Keeps v fun frames => clause (frames.filter keep) := by
  refine fun frames => (h (frames.filter keep)).mono fun left hleft f hf => ?_
  obtain ⟨g, hg, hkept⟩ := hleft f hf
  exact ⟨g, List.mem_of_mem_filter hg, hkept⟩

theorem Frame.bridge_asks {call : Payload → Effect σ (List Payload)} (input output : Template)
    (hcall : ∀ args, (call args).Asks fun _ => True) (frames : List Frame) :
    (bridge call input output frames).Asks fun left => ∀ f ∈ left, ∃ g ∈ frames, f.Extends g := by
  induction frames with
  | nil => exact .pure (by simp)
  | cons g rest ih =>
    simp only [bridge]
    cases g.resolve input with
    | error e => exact .fail _
    | ok args =>
      refine .bind (hcall args) fun rows _ => .bind ih fun later hlater => .pure fun f hf => ?_
      rcases List.mem_append.mp hf with hnow | hold
      · obtain ⟨row, _, hmatch⟩ := List.mem_filterMap.mp hnow
        exact ⟨g, List.mem_cons_self .., (match?_sound hmatch).1⟩
      · obtain ⟨g', hg', hextends⟩ := hlater f hold
        exact ⟨g', List.mem_cons_of_mem _ hg', hextends⟩

section Bridging

variable {call : Payload → Effect σ (List Payload)} {f : Frame} {name : String} {key : Var}
  {bound : Value} {world world' : σ}

private theorem Frame.resolve_field (hkey : f.get? key = some bound) :
    f.resolve [(name, .var key)] = .ok [(name, bound)] := by
  simp [resolve, resolveTerm, hkey]

/-- A query by one bound field, whose rows have one field, binds a new variable to each of them. -/
theorem Frame.bridge_rows {field : String} {values : List Value} {v : Var}
    (hkey : f.get? key = some bound)
    (hrows : call [(name, bound)] world = (.ok (values.map (.single field)), world'))
    (hfree : f.get? v = none) :
    bridge call [(name, .var key)] [(field, .var v)] [f] world =
      (.ok (values.map (f.insert v)), world') := by
  have hmatch (value : Value) :
      f.match? [(field, .var v)] (.single field value) = some (f.insert v value) := by
    simp [match?, matchFields, Payload.single, Table.get?, bind?, hfree]
  simp only [bridge, resolve_field hkey]
  refine (Effect.bind_of_ok hrows).trans ?_
  change (Outcome.ok (List.filterMap _ _ ++ []), world') = _
  simp [List.filterMap_map, hmatch]

theorem Frame.bridge_single {field : String} {value : Value} {v : Var}
    (hkey : f.get? key = some bound)
    (hrows : call [(name, bound)] world = (.ok [.single field value], world'))
    (hfree : f.get? v = none) :
    bridge call [(name, .var key)] [(field, .var v)] [f] world =
      (.ok [f.insert v value], world') := by
  have hsingle : call [(name, bound)] world = (.ok ([value].map (.single field)), world') := hrows
  exact bridge_rows hkey hsingle hfree

end Bridging

variable {rule : Rule σ}

theorem refine_of_reads (h : ∀ clause ∈ rule.clauses.whereClause, Refinement.Reads clause)
    (frames : List Frame) (world : σ) :
    (∃ left, refine rule frames world = (.frames left, world)) ∨
      ∃ e, refine rule frames world = (.error e, world) := by
  unfold refine
  cases hclause : rule.clauses.whereClause with
  | none => exact .inl ⟨frames, rfl⟩
  | some clause =>
    rcases h clause hclause frames world with ⟨left, heq, _⟩ | ⟨failure, heq⟩
    · exact .inl ⟨left, by simp [heq]⟩
    · exact .inr ⟨refinementError rule failure, by simp [heq]⟩

theorem keeps_of_refine {v : Var} {frames left : List Frame} {world world' : σ}
    (h : ∀ clause ∈ rule.clauses.whereClause, Refinement.Keeps v clause)
    (hrefine : refine rule frames world = (.frames left, world')) : Frame.Kept v frames left := by
  unfold refine at hrefine
  cases hclause : rule.clauses.whereClause with
  | none =>
    rw [hclause] at hrefine
    cases hrefine
    exact fun f hf => ⟨f, hf, fun _ hvalue => hvalue⟩
  | some clause =>
    rw [hclause] at hrefine
    rcases h clause hclause frames world with ⟨_, heq, hleft⟩ | ⟨failure, heq⟩
    · simp only [heq] at hrefine
      cases hrefine
      exact hleft
    · simp [heq] at hrefine

end ConceptSync
