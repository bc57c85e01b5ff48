import ConceptSync.Proofs.Frame.Templates

set_option autoImplicit false
set_option relaxedAutoImplicit false

/-!
Unification without the frame that is threaded through both templates. A completion matches when it
has what the pattern asks for and no variable is carried by fields of different values; each
occurrence is compared with the first one alone, and equality by value makes that enough. The frame
then has the value of the first field of every variable.
-/

namespace ConceptSync

def Template.First (template : Template) (payload : Payload) (v : Var) (value : Value) : Prop :=
  ∃ field, (field, .var v) ∈ template ∧ payload.get? field = some value ∧
    ∀ other < field, (other, .var v) ∉ template

namespace Pattern

def Carries (p : Pattern) (input output : Payload) (v : Var) (value : Value) : Prop :=
  (∃ field, (field, .var v) ∈ p.input ∧ input.get? field = some value) ∨
    ∃ field, (field, .var v) ∈ p.output ∧ output.get? field = some value

def Agrees (p : Pattern) (input output : Payload) : Prop :=
  ∀ v x y, p.Carries input output v x → p.Carries input output v y → x.equals y = true

/-- The first field that carries the variable has the value, and those of the input come first. -/
def First (p : Pattern) (input output : Payload) (v : Var) (value : Value) : Prop :=
  p.input.First input v value ∨ v ∉ p.input.vars ∧ p.output.First output v value

def bindings (p : Pattern) (input output : Payload) : List (Var × Value) :=
  p.input.bindings input ++ p.output.bindings output

end Pattern

namespace Frame

variable {f : Frame}

private theorem bindAll?_append (f : Frame) (earlier later : List (Var × Value)) :
    f.bindAll? (earlier ++ later) = (f.bindAll? earlier).bind fun g => g.bindAll? later := by
  induction earlier generalizing f with
  | nil => rfl
  | cons e earlier ih =>
    simp only [List.cons_append, bindAll?]
    cases f.bind? e.1 e.2 with
    | none => rfl
    | some g => exact ih g

private theorem bindAll?_empty_eq_some_iff {entries : List (Var × Value)} :
    empty.bindAll? entries = some f ↔
      (∀ v x y, (v, x) ∈ entries → (v, y) ∈ entries → x.equals y = true) ∧
        empty.overlay entries = f := by
  have hget : ∀ v, (empty.overlay entries).get? v = Table.get? entries v := by
    intro v
    rw [get?_overlay]
    exact Option.none_or
  rw [bindAll?_eq_some_iff]
  simp only [hget]
  refine and_congr_left fun _ => ⟨fun hfirst v x y hx hy => ?_, fun hagree e he a ha => ?_⟩
  · have hkey : v ∈ Table.keys entries := List.mem_map_of_mem hx
    obtain ⟨a, ha⟩ := Option.isSome_iff_exists.mp (Table.isSome_get?.mpr hkey)
    have hxa : x.equals a = true := by
      rw [Value.equals_comm]
      exact hfirst _ hx a ha
    exact Value.equals_trans hxa (hfirst _ hy a ha)
  · exact hagree e.1 a e.2 (Table.mem_of_get? ha) he

end Frame

theorem Template.get?_bindings {template : Template} {payload : Payload}
    (hsorted : template.Sorted) (hadmits : template.Admits payload) {v : Var} {value : Value} :
    Table.get? (template.bindings payload) v = some value ↔ template.First payload v value := by
  induction template with
  | nil => simp [bindings, Table.get?, First]
  | cons e rest ih =>
    obtain ⟨field, term⟩ := e
    obtain ⟨hfirst, hrest⟩ := List.pairwise_cons.mp hsorted
    obtain ⟨⟨actual, hfield, _⟩, hadmits⟩ := List.forall_mem_cons.mp hadmits
    by_cases hcarries : term = .var v
    · subst hcarries
      have hbindings : bindings ((field, .var v) :: rest) payload =
          (v, actual) :: bindings rest payload := by
        simp [bindings, Term.var?, hfield]
      rw [hbindings, Table.get?, if_pos rfl]
      constructor
      · intro hvalue
        cases hvalue
        refine ⟨field, List.mem_cons_self .., hfield, fun other hlt hmem => ?_⟩
        rcases List.mem_cons.mp hmem with heq | hmem
        · cases heq
          exact lt_irrefl _ hlt
        · exact lt_asymm hlt (hfirst _ hmem)
      · rintro ⟨other, hmem, hother, hleast⟩
        rcases List.mem_cons.mp hmem with heq | hmem
        · cases heq
          rw [← hfield, hother]
        · exact absurd (List.mem_cons_self ..) (hleast field (hfirst _ hmem))
    · -- the field carries something else, so the entries of the variable are those of the others
      have hget : Table.get? (bindings ((field, term) :: rest) payload) v =
          Table.get? (bindings rest payload) v := by
        cases term with
        | literal expected => rfl
        | var w =>
          have hne : w ≠ v := fun heq => hcarries (congrArg Term.var heq)
          have hbindings : bindings ((field, .var w) :: rest) payload =
              (w, actual) :: bindings rest payload := by
            simp [bindings, Term.var?, hfield]
          rw [hbindings, Table.get?, if_neg hne]
      have hmem : ∀ other, (other, .var v) ∈ (field, term) :: rest ↔ (other, .var v) ∈ rest := by
        intro other
        simp [Ne.symm hcarries]
      rw [hget, ih hrest hadmits]
      simp only [First, hmem]

namespace Pattern

variable {p : Pattern} {action : ActionId} {input output : Payload} {f : Frame}

private theorem mem_bindings {v : Var} {value : Value} :
    (v, value) ∈ p.bindings input output ↔ p.Carries input output v value := by
  rw [bindings, List.mem_append, Template.mem_bindings, Template.mem_bindings, Carries]

instance (p : Pattern) (input output : Payload) : Decidable (p.Agrees input output) :=
  decidable_of_iff (∀ b ∈ p.bindings input output, ∀ c ∈ p.bindings input output,
      b.1 = c.1 → b.2.equals c.2 = true) <| by
    simp only [Agrees, ← mem_bindings, Prod.forall]
    exact ⟨fun h v x y hx hy => h v x hx v y hy rfl,
      fun h v x hx _ y hy heq => h v x y hx (heq ▸ hy)⟩

theorem unify?_eq_some_iff_bindings :
    p.unify? action input output = some f ↔
      (p.action = action ∧ p.outcome.admits output = true ∧ p.input.Admits input ∧
        p.output.Admits output ∧ p.Agrees input output) ∧
          Frame.empty.overlay (p.bindings input output) = f := by
  have hagree : Frame.empty.bindAll? (p.bindings input output) = some f ↔
      p.Agrees input output ∧ Frame.empty.overlay (p.bindings input output) = f := by
    rw [Frame.bindAll?_empty_eq_some_iff]
    simp only [mem_bindings, Agrees]
  have hturns : Frame.empty.bindAll? (p.bindings input output) = some f ↔
      ∃ g, Frame.empty.bindAll? (p.input.bindings input) = some g ∧
        g.bindAll? (p.output.bindings output) = some f := by
    rw [bindings, Frame.bindAll?_append, Option.bind_eq_some_iff]
  rw [hturns] at hagree
  simp only [unify?_eq_some_iff, Frame.match?_eq_some_iff]
  constructor
  · rintro ⟨haction, houtcome, g, ⟨hinput, hbind⟩, houtput, hbind'⟩
    obtain ⟨hagrees, hframe⟩ := hagree.mp ⟨g, hbind, hbind'⟩
    exact ⟨⟨haction, houtcome, hinput, houtput, hagrees⟩, hframe⟩
  · rintro ⟨⟨haction, houtcome, hinput, houtput, hagrees⟩, hframe⟩
    obtain ⟨g, hbind, hbind'⟩ := hagree.mpr ⟨hagrees, hframe⟩
    exact ⟨haction, houtcome, g, ⟨hinput, hbind⟩, houtput, hbind'⟩

private theorem sorted_unify? (h : p.unify? action input output = some f) : f.Sorted := by
  obtain ⟨_, rfl⟩ := unify?_eq_some_iff_bindings.mp h
  exact Frame.sorted_empty.overlay _

theorem nodup_keys_unify? (h : p.unify? action input output = some f) : f.keys.Nodup :=
  (sorted_unify? h).nodup_keys

private theorem get?_bindings (hsorted : p.input.Sorted) (hsorted' : p.output.Sorted)
    (hinput : p.input.Admits input) (houtput : p.output.Admits output) {v : Var} {value : Value} :
    Table.get? (p.bindings input output) v = some value ↔ p.First input output v value := by
  have hnone : Table.get? (p.input.bindings input) v = none ↔ v ∉ p.input.vars := by
    rw [← Option.not_isSome_iff_eq_none, Table.isSome_get?, Table.keys,
      Template.keys_bindings hinput]
  rw [bindings, Table.get?_append, Option.or_eq_some_iff, hnone,
    Template.get?_bindings hsorted hinput, Template.get?_bindings hsorted' houtput, First]

/-- Unification is complete and correct: a completion matches a pattern exactly if it is one of its
action and outcome, has the fields and literals of both templates and has equal values in the fields
that carry one variable, and the frame binds the variables of the pattern and no others, each to the
value of its first field. -/
theorem unify?_spec (hsorted : p.input.Sorted) (hsorted' : p.output.Sorted) (action : ActionId)
    (input output : Payload) :
    ((p.unify? action input output).isSome = true ↔
      p.action = action ∧ p.outcome.admits output = true ∧ p.input.Admits input ∧
        p.output.Admits output ∧ p.Agrees input output) ∧
    ∀ f, p.unify? action input output = some f →
      f.Sorted ∧ (∀ v, f.contains v = true ↔ v ∈ p.vars) ∧
        ∀ v value, f.get? v = some value ↔ p.First input output v value := by
  refine ⟨?_, fun f hf => ?_⟩
  · simp only [Option.isSome_iff_exists, unify?_eq_some_iff_bindings, exists_and_left, exists_eq',
      and_true]
  · obtain ⟨⟨_, _, hinput, houtput, _⟩, hframe⟩ := unify?_eq_some_iff_bindings.mp hf
    have hget : ∀ v, f.get? v = Table.get? (p.bindings input output) v := by
      intro v
      rw [← hframe, Frame.get?_overlay]
      exact Option.none_or
    refine ⟨sorted_unify? hf, fun v => ?_, fun v value => ?_⟩
    · have hkeys : Table.keys (p.bindings input output) = p.vars := by
        rw [Table.keys, bindings, List.map_append, Template.keys_bindings hinput,
          Template.keys_bindings houtput, vars]
      rw [Table.contains, hget, Table.isSome_get?, hkeys]
    · rw [hget, get?_bindings hsorted hsorted' hinput houtput]

/-- A variable of three fields, one of which has the number of the others as a floating point
number, stands for what the first field of the input has. -/
theorem unify?_spec_repeated :
    ∃ f, unify? ⟨⟨3⟩, [("b", .var ⟨0⟩), ("c", .var ⟨0⟩)],
        [("a", .var ⟨0⟩), ("d", .literal (.string "x"))], .success⟩ ⟨3⟩
        [("a", .null), ("b", .array [.ofInt 1]), ("c", .array [.ofDouble (.ofInt 1)])]
        [("a", .array [.ofInt 1]), ("d", .string "x")] = some f ∧
      f.contains ⟨1⟩ = false ∧ f.get? ⟨0⟩ = some (.array [.ofInt 1]) := by
  obtain ⟨hmatches, hbinds⟩ := unify?_spec (p := ⟨⟨3⟩, [("b", .var ⟨0⟩), ("c", .var ⟨0⟩)],
      [("a", .var ⟨0⟩), ("d", .literal (.string "x"))], .success⟩) (by decide) (by decide) ⟨3⟩
    [("a", .null), ("b", .array [.ofInt 1]), ("c", .array [.ofDouble (.ofInt 1)])]
    [("a", .array [.ofInt 1]), ("d", .string "x")]
  obtain ⟨f, hf⟩ := Option.isSome_iff_exists.mp (hmatches.mpr (by decide +kernel))
  obtain ⟨_, hvars, hfirst⟩ := hbinds f hf
  refine ⟨f, hf, Bool.eq_false_iff.mpr (mt (hvars _).mp (by decide)), (hfirst _ _).mpr (.inl ?_)⟩
  refine ⟨"b", by simp, rfl, fun other hlt hmem => ?_⟩
  have hnames : other = "b" ∨ other = "c" := by simpa using hmem
  rcases hnames with rfl | rfl
  · exact absurd hlt (by decide)
  · exact absurd hlt (by decide)

end Pattern

end ConceptSync
