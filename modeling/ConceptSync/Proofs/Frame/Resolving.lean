import ConceptSync.Proofs.Frame.Algebra
import ConceptSync.Proofs.Frame.Unification

set_option autoImplicit false
set_option relaxedAutoImplicit false

/-!
Resolving undoes matching. A template resolves in the frames that bind all its variables, and in no
others; after a match it gives back the fields that were matched, and a payload that has the fields
of a resolved template matches it without changing the frame.
-/

namespace ConceptSync

/-- The fields of the smaller payload are in the larger one, with equal values. -/
def Payload.Covers (larger smaller : Payload) : Prop :=
  ∀ field value, smaller.get? field = some value →
    ∃ actual, larger.get? field = some actual ∧ value.equals actual = true

namespace Frame

def missing? (f : Frame) (vars : List Var) : Option Var := vars.find? fun v => !f.contains v

variable {f g : Frame} {template : Template} {payload resolved : Payload}

private theorem missing?_append (earlier later : List Var) :
    f.missing? (earlier ++ later) = (f.missing? earlier).or (f.missing? later) :=
  List.find?_append

theorem resolve_eq_error_iff {e : EngineError} :
    f.resolve template = .error e ↔ ∃ v, f.missing? template.vars = some v ∧ e = .unbound v := by
  induction template with
  | nil => simp [resolve, missing?, Template.vars, Table.values]
  | cons entry rest ih =>
    obtain ⟨field, term⟩ := entry
    have hlater : ∀ value, f.resolveTerm term = .ok value →
        (f.resolve ((field, term) :: rest) = .error e ↔ f.resolve rest = .error e) := by
      intro value hterm
      simp only [resolve, hterm]
      cases f.resolve rest <;> simp
    cases term with
    | literal value =>
      rw [hlater value rfl]
      exact ih
    | var v =>
      have hvars : Template.vars ((field, .var v) :: rest) = v :: Template.vars rest := rfl
      cases hbound : f.get? v with
      | some value =>
        have hmissing : f.missing? (v :: Template.vars rest) = f.missing? (Template.vars rest) :=
          List.find?_cons_of_neg (by simp [Table.contains, hbound])
        rw [hlater value (by simp [resolveTerm, hbound]), hvars, hmissing]
        exact ih
      | none =>
        have hmissing : f.missing? (v :: Template.vars rest) = some v :=
          List.find?_cons_of_pos (by simp [Table.contains, hbound])
        simp only [resolve, resolveTerm, hbound, hvars, hmissing, Except.error.injEq,
          Option.some.injEq, exists_eq_left', eq_comm]

theorem missing?_of_resolve (h : f.resolve template = .ok resolved) :
    f.missing? template.vars = none := by
  refine Option.eq_none_iff_forall_ne_some.mpr fun v hv => ?_
  have herror : f.resolve template = .error (.unbound v) := resolve_eq_error_iff.mpr ⟨v, hv, rfl⟩
  rw [h] at herror
  cases herror

theorem resolveAll_eq_error_iff {patterns : List Pattern} {e : EngineError} :
    f.resolveAll patterns = .error e ↔
      ∃ v, f.missing? (patterns.flatMap fun p => p.input.vars) = some v ∧ e = .unbound v := by
  induction patterns with
  | nil => simp [resolveAll, missing?]
  | cons p rest ih =>
    rw [List.flatMap_cons, missing?_append]
    cases hinput : f.resolve p.input with
    | error e' =>
      obtain ⟨v, hv, rfl⟩ := resolve_eq_error_iff.mp hinput
      simp only [resolveAll, hinput, hv, Option.some_or, Except.error.injEq, Option.some.injEq,
        exists_eq_left', eq_comm]
    | ok input =>
      rw [missing?_of_resolve hinput, Option.none_or, ← ih]
      simp only [resolveAll, hinput]
      cases f.resolveAll rest <;> simp

private theorem get?_resolve_of_mem (hsorted : template.Sorted)
    (h : f.resolve template = .ok resolved)
    {field : String} {term : Term} (hmem : (field, term) ∈ template) :
    ∃ value, f.resolveTerm term = .ok value ∧ resolved.get? field = some value := by
  have hterm : template.get? field = some term := Table.get?_of_mem hsorted.nodup_keys hmem
  have hfield : (resolved.get? field).isSome = true := by
    rw [Table.isSome_get?, keys_resolve h]
    exact List.mem_map_of_mem hmem
  obtain ⟨value, hvalue⟩ := Option.isSome_iff_exists.mp hfield
  refine ⟨value, ?_, hvalue⟩
  rw [get?_resolve h, hterm, Option.bind_some] at hvalue
  cases hresolve : f.resolveTerm term <;> simp_all [Except.toOption]

private theorem overlay_of_bound {entries : List (Var × Value)}
    (h : ∀ e ∈ entries, f.contains e.1 = true) : f.overlay entries = f := by
  induction entries with
  | nil => rfl
  | cons e rest ih =>
    obtain ⟨hfirst, hrest⟩ := List.forall_mem_cons.mp h
    have hadopt : f.adopt e = f := if_pos hfirst
    rw [overlay, List.foldl_cons, hadopt]
    exact ih hrest

private theorem Fits.covers (hfits : f.Fits template payload)
    (h : f.resolve template = .ok resolved) :
    payload.Covers resolved := by
  intro field value hvalue
  obtain ⟨term, hmem, hterm⟩ := mem_resolve h _ (Table.mem_of_get? hvalue)
  obtain ⟨actual, hactual, hagrees⟩ := hfits _ hmem
  refine ⟨actual, hactual, ?_⟩
  cases term with
  | literal expected =>
    cases hterm
    exact hagrees
  | var v =>
    obtain ⟨bound, hbound, hequal⟩ := hagrees
    simp only [resolveTerm, hbound] at hterm
    cases hterm
    rcases hequal with rfl | hequal
    · exact Value.equals_refl _
    · exact hequal

private theorem contains_match? (h : f.match? template payload = some g) (v : Var) :
    g.contains v = (f.contains v || decide (v ∈ template.vars)) := by
  obtain ⟨hadmits, hbind⟩ := match?_eq_some_iff.mp h
  obtain ⟨_, rfl⟩ := bindAll?_eq_some_iff.mp hbind
  have hvars : Table.contains (template.bindings payload) v = decide (v ∈ template.vars) := by
    rw [Bool.eq_iff_iff, decide_eq_true_iff, Table.contains, Table.isSome_get?, Table.keys,
      Template.keys_bindings hadmits]
  rw [contains_overlay, hvars]

private theorem get?_match? (hsorted : template.Sorted) (h : f.match? template payload = some g)
    {v : Var} (hfree : f.contains v = false) {value : Value} :
    g.get? v = some value ↔ template.First payload v value := by
  obtain ⟨hadmits, hbind⟩ := match?_eq_some_iff.mp h
  obtain ⟨_, rfl⟩ := bindAll?_eq_some_iff.mp hbind
  have hnone : f.get? v = none := Option.not_isSome_iff_eq_none.mp (Bool.eq_false_iff.mp hfree)
  rw [get?_overlay, hnone, Option.none_or, Template.get?_bindings hsorted hadmits]

private theorem match?_of_covers (hsorted : template.Sorted)
    (h : f.resolve template = .ok resolved) (hcovers : payload.Covers resolved) :
    f.match? template payload = some f := by
  have hsays : ∀ field term, (field, term) ∈ template → ∃ value, f.resolveTerm term = .ok value ∧
      ∃ actual, payload.get? field = some actual ∧ value.equals actual = true := by
    intro field term hmem
    obtain ⟨value, hvalue, hfield⟩ := get?_resolve_of_mem hsorted h hmem
    exact ⟨value, hvalue, hcovers field value hfield⟩
  have hentry : ∀ e ∈ template.bindings payload,
      ∃ value, f.get? e.1 = some value ∧ value.equals e.2 = true := by
    rintro ⟨v, x⟩ he
    obtain ⟨field, hmem, hx⟩ := Template.mem_bindings.mp he
    obtain ⟨value, hvalue, actual, hactual, hequals⟩ := hsays field _ hmem
    obtain rfl : actual = x := Option.some.inj (hactual.symm.trans hx)
    refine ⟨value, ?_, hequals⟩
    simp only [resolveTerm] at hvalue
    split at hvalue
    · next bound hbound =>
      cases hvalue
      exact hbound
    · cases hvalue
  have hoverlay : f.overlay (template.bindings payload) = f := by
    refine overlay_of_bound fun e he => ?_
    obtain ⟨value, hvalue, _⟩ := hentry e he
    rw [Table.contains, hvalue, Option.isSome_some]
  refine match?_eq_some_iff.mpr ⟨fun e he => ?_,
    bindAll?_eq_some_iff.mpr ⟨fun e he a ha => ?_, hoverlay⟩⟩
  · obtain ⟨value, hvalue, actual, hactual, hequals⟩ := hsays e.1 e.2 he
    refine ⟨actual, hactual, fun expected hliteral => ?_⟩
    rw [hliteral] at hvalue
    cases hvalue
    exact hequals
  · rw [hoverlay] at ha
    obtain ⟨value, hvalue, hequals⟩ := hentry e he
    obtain rfl : value = a := Option.some.inj (hvalue.symm.trans ha)
    exact hequals

/-- Matching and resolving are inverse to one another. A match keeps what the frame binds and binds
the variables of the template besides; there the template resolves to its own fields with values
equal to those of the payload, and to the very value where a variable was bound. A template that
resolves in a frame matches every payload that has these fields, and leaves the frame as it is. -/
theorem match?_resolve_inverse (hsorted : template.Sorted) (f : Frame) (payload : Payload) :
    (∀ g, f.match? template payload = some g →
      g.Extends f ∧ (∀ v, g.contains v = (f.contains v || decide (v ∈ template.vars))) ∧
      ∃ resolved, g.resolve template = .ok resolved ∧ resolved.keys = template.keys ∧
        payload.Covers resolved ∧
        ∀ field v, (field, .var v) ∈ template → f.contains v = false →
          (∀ other < field, (other, .var v) ∉ template) →
            resolved.get? field = payload.get? field) ∧
    ∀ resolved other, f.resolve template = .ok resolved → Payload.Covers other resolved →
      f.match? template other = some f := by
  refine ⟨fun g hmatch => ?_, fun resolved other h hcovers => match?_of_covers hsorted h hcovers⟩
  obtain ⟨hextends, hfits⟩ := match?_sound hmatch
  have hbound : ∀ v ∈ template.vars, (g.get? v).isSome = true := by
    intro v hv
    have hcontains := contains_match? hmatch v
    rwa [decide_eq_true hv, Bool.or_true] at hcontains
  obtain ⟨resolved, hresolve⟩ := resolve_of_bound hbound
  refine ⟨hextends, contains_match? hmatch, resolved, hresolve, keys_resolve hresolve,
    hfits.covers hresolve, fun field v hmem hfree hleast => ?_⟩
  obtain ⟨value, hvalue, hfield⟩ := get?_resolve_of_mem hsorted hresolve hmem
  obtain ⟨actual, hactual, _⟩ := hfits _ hmem
  have hfirst : g.get? v = some actual :=
    (get?_match? hsorted hmatch hfree).mpr ⟨field, hmem, hactual, hleast⟩
  simp only [resolveTerm, hfirst] at hvalue
  cases hvalue
  rw [hfield, hactual]

/-- A variable of two fields resolves to the number of the first, a bound one to the number it had,
and the frame of the match is matched by the payload again. -/
theorem match?_resolve_inverse_repeated :
    ∃ g resolved, match? [(⟨1⟩, .ofDouble (.ofInt 2))]
        [("a", .var ⟨0⟩), ("b", .var ⟨0⟩), ("c", .var ⟨1⟩)]
        [("a", .ofInt 1), ("b", .ofDouble (.ofInt 1)), ("c", .ofInt 2), ("d", .null)] = some g ∧
      g.get? ⟨1⟩ = some (.ofDouble (.ofInt 2)) ∧ g.contains ⟨0⟩ = true ∧
      g.resolve [("a", .var ⟨0⟩), ("b", .var ⟨0⟩), ("c", .var ⟨1⟩)] = .ok resolved ∧
      resolved.keys = ["a", "b", "c"] ∧ resolved.get? "a" = some (.ofInt 1) ∧
      g.match? [("a", .var ⟨0⟩), ("b", .var ⟨0⟩), ("c", .var ⟨1⟩)]
        [("a", .ofInt 1), ("b", .ofDouble (.ofInt 1)), ("c", .ofInt 2), ("d", .null)] = some g := by
  have hsorted : Table.Sorted
      [("a", Term.var ⟨0⟩), ("b", Term.var ⟨0⟩), ("c", Term.var ⟨1⟩)] := by decide
  obtain ⟨hmatches, _⟩ := match?_resolve_inverse hsorted [(⟨1⟩, .ofDouble (.ofInt 2))]
    [("a", .ofInt 1), ("b", .ofDouble (.ofInt 1)), ("c", .ofInt 2), ("d", .null)]
  obtain ⟨g, hmatch⟩ := Option.isSome_iff_exists.mp (show (match? [(⟨1⟩, .ofDouble (.ofInt 2))]
      [("a", .var ⟨0⟩), ("b", .var ⟨0⟩), ("c", .var ⟨1⟩)]
      [("a", .ofInt 1), ("b", .ofDouble (.ofInt 1)), ("c", .ofInt 2), ("d", .null)]).isSome = true
    by decide +kernel)
  obtain ⟨hextends, hcontains, resolved, hresolve, hkeys, hcovers, hfirst⟩ := hmatches g hmatch
  obtain ⟨_, hback⟩ := match?_resolve_inverse hsorted g []
  refine ⟨g, resolved, hmatch, hextends _ _ rfl, hcontains ⟨0⟩, hresolve, hkeys, ?_,
    hback _ _ hresolve hcovers⟩
  refine hfirst "a" ⟨0⟩ (List.mem_cons_self ..) rfl fun other hlt hmem => ?_
  have hnames : other = "a" ∨ other = "b" := by simpa using hmem
  rcases hnames with rfl | rfl
  · exact absurd hlt (by decide)
  · exact absurd hlt (by decide)

end Frame

end ConceptSync
