import ConceptSync.Proofs.Frame.Merge
import ConceptSync.Proofs.Engine.Step

set_option autoImplicit false
set_option relaxedAutoImplicit false

/-!
Matching and resolving templates. A frame that matched a template agrees with the payload on every
field of it, a template of unbound and different variables matches every payload that has its
fields and binds them to exactly its values, and resolving a template in a frame gives what the
frame says of its terms.
-/

namespace ConceptSync

namespace Value

theorem eq_string_of_equals {v : Value} {s : String} (h : v.equals (.string s) = true) :
    v = .string s := by
  cases v <;> simp_all [equals]

theorem equals_string_left {v : Value} {s : String} :
    (Value.string s).equals v = true ↔ v = .string s := by
  cases v with
  | string t =>
    rw [equals, beq_iff_eq, Value.string.injEq]
    exact eq_comm
  | _ => simp [equals]

theorem equals_bool_left {v : Value} {b : Bool} :
    (Value.bool b).equals v = true ↔ v = .bool b := by
  cases v with
  | bool c =>
    rw [equals, beq_iff_eq, Value.bool.injEq]
    exact eq_comm
  | _ => simp [equals]

private theorem isNull_of_equals {v w : Value} (h : v.equals w = true) : v.isNull = w.isNull := by
  cases v <;> cases w <;> first | rfl | simp [equals] at h

private theorem isNull_iff {v : Value} : v.isNull = true ↔ v = .null := by
  cases v <;> simp [isNull]

end Value

namespace Template

def Admits (template : Template) (payload : Payload) : Prop :=
  ∀ e ∈ template, ∃ actual, payload.get? e.1 = some actual ∧
    ∀ expected, e.2 = .literal expected → expected.equals actual = true

instance (template : Template) (payload : Payload) : Decidable (template.Admits payload) :=
  decidable_of_iff (∀ e ∈ template, ((payload.get? e.1).any fun actual =>
      match e.2 with
      | .var _ => true
      | .literal expected => expected.equals actual) = true) <| by
    refine forall₂_congr fun e _ => ?_
    cases payload.get? e.1 <;> cases e.2 <;> simp

def bindings (template : Template) (payload : Payload) : List (Var × Value) :=
  template.filterMap fun e => e.2.var?.bind fun v => (payload.get? e.1).map (v, ·)

variable {template rest : Template} {payload : Payload} {field : String} {actual : Value} {v : Var}

theorem mem_vars : v ∈ template.vars ↔ ∃ field, (field, .var v) ∈ template := by
  simp only [vars, Table.values, List.filterMap_map, List.mem_filterMap]
  constructor
  · rintro ⟨⟨field, term⟩, he, hv⟩
    cases term with
    | literal expected => cases hv
    | var w =>
      cases hv
      exact ⟨field, he⟩
  · rintro ⟨field, he⟩
    exact ⟨_, he, rfl⟩

theorem mem_bindings :
    (v, actual) ∈ template.bindings payload ↔
      ∃ field, (field, .var v) ∈ template ∧ payload.get? field = some actual := by
  simp only [bindings, List.mem_filterMap]
  constructor
  · rintro ⟨⟨field, term⟩, he, hv⟩
    cases term with
    | literal expected => cases hv
    | var w =>
      obtain ⟨_, hfield, heq⟩ := Option.map_eq_some_iff.mp hv
      cases heq
      exact ⟨field, he, hfield⟩
  · rintro ⟨field, he, hfield⟩
    exact ⟨_, he, by simp [Term.var?, hfield]⟩

theorem keys_bindings (h : template.Admits payload) :
    (template.bindings payload).map Prod.fst = template.vars := by
  induction template with
  | nil => rfl
  | cons e rest ih =>
    obtain ⟨field, term⟩ := e
    obtain ⟨⟨actual, hfield, _⟩, hrest⟩ := List.forall_mem_cons.mp h
    have hlater := ih hrest
    cases term with
    | literal expected => exact hlater
    | var v =>
      have hfirst : bindings ((field, .var v) :: rest) payload =
          (v, actual) :: bindings rest payload := by
        simp [bindings, Term.var?, hfield]
      rw [hfirst, List.map_cons, hlater]
      rfl

theorem admits_nil (payload : Payload) : Admits [] payload := List.forall_mem_nil _

theorem admits_var (v : Var) (hfield : payload.get? field = some actual)
    (hrest : rest.Admits payload) : Admits ((field, .var v) :: rest) payload :=
  List.forall_mem_cons.mpr ⟨⟨actual, hfield, fun _ heq => by cases heq⟩, hrest⟩

theorem admits_literal {expected : Value} (hfield : payload.get? field = some actual)
    (hequals : expected.equals actual = true) (hrest : rest.Admits payload) :
    Admits ((field, .literal expected) :: rest) payload :=
  List.forall_mem_cons.mpr ⟨⟨actual, hfield, fun _ heq => by cases heq; exact hequals⟩, hrest⟩

theorem admits_vars {fields : List (String × Var)}
    (h : ∀ e ∈ fields, (payload.get? e.1).isSome = true) (hrest : rest.Admits payload) :
    Admits (fields.map (fun e => (e.1, .var e.2)) ++ rest) payload := by
  induction fields with
  | nil => exact hrest
  | cons e fields ih =>
    obtain ⟨hfield, hfields⟩ := List.forall_mem_cons.mp h
    obtain ⟨actual, hfield⟩ := Option.isSome_iff_exists.mp hfield
    exact admits_var e.2 hfield (ih hfields)

theorem Admits.perm (h : rest.Admits payload) (hperm : template.Perm rest) :
    template.Admits payload :=
  fun e he => h e (hperm.mem_iff.mp he)

end Template

namespace Frame

def Extends (g f : Frame) : Prop := ∀ v bound, f.get? v = some bound → g.get? v = some bound

/-- What a frame says of a term is the value, or equal to it. -/
def Agrees (f : Frame) : Term → Value → Prop
  | .literal expected, actual => expected.equals actual = true
  | .var v, actual => ∃ bound, f.get? v = some bound ∧ (bound = actual ∨ bound.equals actual = true)

/-- A frame agrees with a payload on all fields of a template. -/
def Fits (f : Frame) (template : Template) (payload : Payload) : Prop :=
  ∀ e ∈ template, ∃ actual, payload.get? e.1 = some actual ∧ f.Agrees e.2 actual

variable {f g : Frame}

private theorem Agrees.of_extends {term : Term} {actual : Value} (h : f.Agrees term actual)
    (hext : g.Extends f) : g.Agrees term actual := by
  cases term with
  | literal expected => exact h
  | var v =>
    obtain ⟨bound, hbound, heq⟩ := h
    exact ⟨bound, hext v bound hbound, heq⟩

theorem Agrees.get?_string {v : Var} {s : String} (h : f.Agrees (.var v) (.string s)) :
    f.get? v = some (.string s) := by
  obtain ⟨bound, hbound, rfl | heq⟩ := h
  · exact hbound
  · rw [hbound, Value.eq_string_of_equals heq]

theorem Agrees.isPresent {v : Var} {actual : Value} (h : f.Agrees (.var v) actual) :
    f.isPresent v = !actual.isNull := by
  obtain ⟨bound, hbound, heq⟩ := h
  have hnull : bound.isNull = actual.isNull := by
    rcases heq with rfl | heq
    · rfl
    · exact Value.isNull_of_equals heq
  simp [Frame.isPresent, hbound, hnull]

theorem Agrees.present {v : Var} {actual : Value} (h : f.Agrees (.var v) actual)
    (hactual : actual ≠ .null) : f.isPresent v = true := by
  rw [h.isPresent, Bool.not_eq_true', ← Bool.not_eq_true, Value.isNull_iff]
  exact hactual

theorem extends_overlay (f : Frame) (entries : List (Var × Value)) :
    (f.overlay entries).Extends f := by
  intro v bound hbound
  rw [get?_overlay, hbound, Option.some_or]

private theorem matchFields_eq_true_iff {template : Template} {payload : Payload} :
    f.matchFields template payload = (g, true) ↔
      template.Admits payload ∧ f.bindAll? (template.bindings payload) = some g := by
  induction template generalizing f with
  | nil => simp [matchFields, bindAll?, Template.bindings, Template.admits_nil]
  | cons e rest ih =>
    obtain ⟨field, term⟩ := e
    have hadmits : Template.Admits ((field, term) :: rest) payload ↔
        (∃ actual, payload.get? field = some actual ∧
          ∀ expected, term = .literal expected → expected.equals actual = true) ∧
        Template.Admits rest payload := List.forall_mem_cons
    rw [hadmits]
    simp only [matchFields]
    cases hfield : payload.get? field with
    | none => simp
    | some actual =>
      cases term with
      | literal expected =>
        have hbindings : Template.bindings ((field, .literal expected) :: rest) payload =
            Template.bindings rest payload := rfl
        by_cases heq : expected.equals actual = true <;> simp [heq, hbindings, ih]
      | var v =>
        have hbindings : Template.bindings ((field, .var v) :: rest) payload =
            (v, actual) :: Template.bindings rest payload := by
          simp [Template.bindings, Term.var?, hfield]
        simp only [hbindings, bindAll?]
        cases f.bind? v actual <;> simp [ih]

/-- A payload matches a template that admits it if the variables can be bound to their fields. -/
theorem match?_eq_some_iff {template : Template} {payload : Payload} :
    f.match? template payload = some g ↔
      template.Admits payload ∧ f.bindAll? (template.bindings payload) = some g := by
  rw [← matchFields_eq_true_iff, match?]
  rcases f.matchFields template payload with ⟨h, _ | _⟩ <;> simp

theorem match?_sound {template : Template} {payload : Payload}
    (h : f.match? template payload = some g) : g.Extends f ∧ g.Fits template payload := by
  obtain ⟨hadmits, hbind⟩ := match?_eq_some_iff.mp h
  obtain ⟨hvalues, rfl⟩ := bindAll?_eq_some_iff.mp hbind
  refine ⟨extends_overlay f _, fun e he => ?_⟩
  obtain ⟨field, term⟩ := e
  obtain ⟨actual, hfield, hliteral⟩ := hadmits _ he
  refine ⟨actual, hfield, ?_⟩
  cases term with
  | literal expected => exact hliteral expected rfl
  | var v =>
    have hmem : (v, actual) ∈ template.bindings payload := Template.mem_bindings.mpr ⟨_, he, hfield⟩
    have hsome : ((f.overlay (template.bindings payload)).get? v).isSome = true := by
      rw [get?_overlay, Option.isSome_or, Table.isSome_get?.mpr (List.mem_map_of_mem hmem),
        Bool.or_true]
    obtain ⟨bound, hbound⟩ := Option.isSome_iff_exists.mp hsome
    exact ⟨bound, hbound, .inr (hvalues _ hmem bound hbound)⟩

section Unbound

variable {template : Template} {payload : Payload}

private theorem get?_overlay_bindings (hadmits : template.Admits payload)
    (hvars : template.vars.Nodup) (hunbound : ∀ v ∈ template.vars, f.get? v = none) :
    ∀ b ∈ template.bindings payload,
      (f.overlay (template.bindings payload)).get? b.1 = some b.2 := by
  intro b hb
  have hkeys := Template.keys_bindings hadmits
  have hmem : b.1 ∈ template.vars := hkeys ▸ List.mem_map_of_mem hb
  rw [get?_overlay, hunbound _ hmem, Option.none_or]
  exact Table.get?_of_mem (by rwa [Table.keys, hkeys]) hb

theorem match?_complete (hadmits : template.Admits payload) (hvars : template.vars.Nodup)
    (hunbound : ∀ v ∈ template.vars, f.get? v = none) :
    ∃ g, f.match? template payload = some g := by
  refine ⟨_, match?_eq_some_iff.mpr ⟨hadmits, bindAll?_eq_some_iff.mpr ⟨fun b hb a ha => ?_, rfl⟩⟩⟩
  rw [get?_overlay_bindings hadmits hvars hunbound b hb] at ha
  cases ha
  exact Value.equals_refl _

theorem match?_exact (h : f.match? template payload = some g) (hvars : template.vars.Nodup)
    (hunbound : ∀ v ∈ template.vars, f.get? v = none) :
    (∀ e ∈ template, ∀ v, e.2 = .var v → g.get? v = payload.get? e.1) ∧
      ∀ v, v ∉ template.vars → g.get? v = f.get? v := by
  obtain ⟨hadmits, hbind⟩ := match?_eq_some_iff.mp h
  obtain ⟨_, rfl⟩ := bindAll?_eq_some_iff.mp hbind
  constructor
  · rintro ⟨field, _⟩ he v rfl
    obtain ⟨actual, hfield, _⟩ := hadmits _ he
    rw [get?_overlay_bindings hadmits hvars hunbound _ (Template.mem_bindings.mpr ⟨_, he, hfield⟩),
      hfield]
  · intro v hv
    have hnone : Table.get? (template.bindings payload) v = none := by
      rw [← Option.not_isSome_iff_eq_none, Table.isSome_get?, Table.keys,
        Template.keys_bindings hadmits]
      exact hv
    rw [get?_overlay, hnone, Option.or_none]

end Unbound

theorem mem_resolve {template : Template} {payload : Payload}
    (h : f.resolve template = .ok payload) :
    ∀ e ∈ payload, ∃ term, (e.1, term) ∈ template ∧ f.resolveTerm term = .ok e.2 := by
  induction template generalizing payload with
  | nil =>
    cases h
    simp
  | cons e rest ih =>
    obtain ⟨field, term⟩ := e
    simp only [resolve] at h
    split at h
    · cases h
    · next value hterm =>
      split at h
      · cases h
      · next later hrest =>
        cases h
        intro e he
        rcases List.mem_cons.mp he with rfl | he
        · exact ⟨term, List.mem_cons_self .., hterm⟩
        · obtain ⟨term, hmem, hterm⟩ := ih hrest e he
          exact ⟨term, List.mem_cons_of_mem _ hmem, hterm⟩

theorem keys_resolve {template : Template} {payload : Payload}
    (h : f.resolve template = .ok payload) : payload.keys = template.keys := by
  induction template generalizing payload with
  | nil =>
    cases h
    rfl
  | cons e rest ih =>
    obtain ⟨field, term⟩ := e
    simp only [resolve] at h
    split at h
    · cases h
    · split at h
      · cases h
      · next later hrest =>
        cases h
        have hkeys : Table.keys later = Table.keys rest := ih hrest
        exact congrArg (field :: ·) hkeys

theorem get?_resolve {template : Template} {payload : Payload}
    (h : f.resolve template = .ok payload) (field : String) :
    payload.get? field = (template.get? field).bind fun term => (f.resolveTerm term).toOption := by
  induction template generalizing payload with
  | nil =>
    cases h
    rfl
  | cons e rest ih =>
    obtain ⟨name, term⟩ := e
    simp only [resolve] at h
    split at h
    · cases h
    · next value hterm =>
      split at h
      · cases h
      · next later hrest =>
        cases h
        simp only [Table.get?]
        split
        · simp [hterm, Except.toOption]
        · exact ih hrest

theorem resolve_of_bound {template : Template}
    (h : ∀ v ∈ template.vars, (f.get? v).isSome = true) :
    ∃ payload, f.resolve template = .ok payload := by
  induction template with
  | nil => exact ⟨[], rfl⟩
  | cons e rest ih =>
    obtain ⟨field, term⟩ := e
    have hterm : ∃ value, f.resolveTerm term = .ok value := by
      cases term with
      | literal value => exact ⟨value, rfl⟩
      | var v =>
        obtain ⟨bound, hbound⟩ := Option.isSome_iff_exists.mp (h v (List.mem_cons_self ..))
        exact ⟨bound, by simp [resolveTerm, hbound]⟩
    have hrest : ∀ v ∈ Template.vars rest, (f.get? v).isSome = true := by
      intro v hv
      refine h v ?_
      cases term with
      | literal value => exact hv
      | var w => exact List.mem_cons_of_mem _ hv
    obtain ⟨value, hvalue⟩ := hterm
    obtain ⟨payload, hpayload⟩ := ih hrest
    exact ⟨(field, value) :: payload, by simp only [resolve, hvalue, hpayload]⟩

theorem resolve_insert {template : Template} {payload : Payload} {term : Term} {value : Value}
    (h : f.resolve template = .ok payload) (hterm : f.resolveTerm term = .ok value)
    (field : String) :
    f.resolve (template.insert field term) = .ok (payload.insert field value) := by
  induction template generalizing payload with
  | nil =>
    cases h
    simp [Table.insert, resolve, hterm]
  | cons e rest ih =>
    obtain ⟨name, first⟩ := e
    simp only [resolve] at h
    split at h
    · cases h
    · next said hfirst =>
      split at h
      · cases h
      · next later hrest =>
        cases h
        simp only [Table.insert]
        split
        · simp only [resolve, hterm, hrest]
        · split
          · simp only [resolve, hterm, hfirst, hrest]
          · simp only [resolve, hfirst, ih hrest]

end Frame

namespace Pattern

variable {p : Pattern} {action : ActionId} {input output : Payload} {f : Frame}

theorem unify?_eq_some_iff :
    p.unify? action input output = some f ↔
      p.action = action ∧ p.outcome.admits output = true ∧
        ∃ g, Frame.empty.match? p.input input = some g ∧ g.match? p.output output = some f := by
  unfold unify?
  by_cases haction : p.action = action
  · cases houtcome : p.outcome.admits output <;> simp [haction, Option.bind_eq_some_iff]
  · simp [haction]

theorem unify?_sound (h : p.unify? action input output = some f) :
    p.action = action ∧ f.Fits p.input input ∧ f.Fits p.output output := by
  obtain ⟨haction, _, g, hinput, houtput⟩ := unify?_eq_some_iff.mp h
  obtain ⟨_, hfits⟩ := Frame.match?_sound hinput
  obtain ⟨hext, hfits'⟩ := Frame.match?_sound houtput
  refine ⟨haction, fun e he => ?_, hfits'⟩
  obtain ⟨actual, hactual, hagrees⟩ := hfits e he
  exact ⟨actual, hactual, hagrees.of_extends hext⟩

theorem unify?_complete (output : Payload) (houtcome : p.outcome.admits output = true)
    (hvars : p.vars.Nodup) (hinput : p.input.Admits input) (houtput : p.output.Admits output) :
    ∃ f, p.unify? p.action input output = some f := by
  obtain ⟨hvars, hvars', hdisjoint⟩ := List.nodup_append.mp hvars
  obtain ⟨g, hg⟩ := Frame.match?_complete hinput hvars fun v _ =>
    (rfl : Frame.empty.get? v = none)
  obtain ⟨_, hothers⟩ := Frame.match?_exact hg hvars fun _ _ => rfl
  obtain ⟨f, hf⟩ := Frame.match?_complete (f := g) houtput hvars' fun v hv =>
    hothers v fun hin => hdisjoint v hin v hv rfl
  exact ⟨f, unify?_eq_some_iff.mpr ⟨rfl, houtcome, g, hg, hf⟩⟩

/-- A pattern of different variables binds each to exactly the value of its field, and no others. -/
theorem unify?_exact (h : p.unify? action input output = some f) (hvars : p.vars.Nodup) :
    (∀ e ∈ p.input, ∀ v, e.2 = .var v → f.get? v = input.get? e.1) ∧
      (∀ e ∈ p.output, ∀ v, e.2 = .var v → f.get? v = output.get? e.1) ∧
      ∀ v, v ∉ p.vars → f.get? v = none := by
  obtain ⟨_, _, g, hinput, houtput⟩ := unify?_eq_some_iff.mp h
  obtain ⟨hvars, hvars', hdisjoint⟩ := List.nodup_append.mp hvars
  obtain ⟨hfields, hothers⟩ := Frame.match?_exact hinput hvars fun _ _ => rfl
  have hunbound : ∀ v ∈ p.output.vars, g.get? v = none := by
    intro v hv
    rw [hothers v fun hin => hdisjoint v hin v hv rfl]
    rfl
  obtain ⟨hfields', hothers'⟩ := Frame.match?_exact houtput hvars' hunbound
  refine ⟨?_, hfields', fun v hv => ?_⟩
  · rintro ⟨field, _⟩ he v rfl
    have hin : v ∈ p.input.vars := Template.mem_vars.mpr ⟨field, he⟩
    rw [hothers' v fun hout => hdisjoint v hin v hout rfl]
    exact hfields _ he v rfl
  · obtain ⟨hin, hout⟩ := not_or.mp (mt List.mem_append.mpr hv)
    rw [hothers' v hout, hothers v hin]
    rfl

theorem unify?_of_fields {inputs outputs : Template} (output : Payload)
    (hinputs : p.input.Perm inputs) (houtputs : p.output.Perm outputs)
    (houtcome : p.outcome.admits output = true)
    (hvars : (inputs.vars ++ outputs.vars).Nodup) (hinput : inputs.Admits input)
    (houtput : outputs.Admits output) :
    ∃ f, p.unify? p.action input output = some f ∧
      (∀ field v, (field, .var v) ∈ inputs → f.get? v = input.get? field) ∧
      (∀ field v, (field, .var v) ∈ outputs → f.get? v = output.get? field) ∧
      ∀ v, v ∉ inputs.vars ++ outputs.vars → f.get? v = none := by
  have hperm : p.vars.Perm (inputs.vars ++ outputs.vars) :=
    ((hinputs.map Prod.snd).filterMap Term.var?).append
      ((houtputs.map Prod.snd).filterMap Term.var?)
  have hnodup : p.vars.Nodup := hperm.nodup_iff.mpr hvars
  obtain ⟨f, hunify⟩ :=
    unify?_complete output houtcome hnodup (hinput.perm hinputs) (houtput.perm houtputs)
  obtain ⟨hin, hout, hfree⟩ := unify?_exact hunify hnodup
  refine ⟨f, hunify, fun field v hmem => ?_, fun field v hmem => ?_, fun v hv => hfree v ?_⟩
  · exact hin (field, .var v) (hinputs.mem_iff.mpr hmem) v rfl
  · exact hout (field, .var v) (houtputs.mem_iff.mpr hmem) v rfl
  · exact mt hperm.mem_iff.mp hv

end Pattern

theorem Rule.mem_invocations {σ : Type} {rule : Rule σ} {f : Frame} {i : ActionId × Payload}
    (h : i ∈ rule.invocations f) :
    ∃ p ∈ rule.clauses.thenPatterns, i.1 = p.action ∧ f.resolve p.input = .ok i.2 := by
  suffices hall : ∀ patterns inputs, f.resolveAll patterns = .ok inputs → i ∈ inputs →
      ∃ p ∈ patterns, i.1 = p.action ∧ f.resolve p.input = .ok i.2 by
    unfold invocations at h
    split at h
    · next inputs hresolve => exact hall _ inputs hresolve h
    · cases h
  intro patterns
  induction patterns with
  | nil =>
    intro inputs hresolve hi
    cases hresolve
    cases hi
  | cons p rest ih =>
    intro inputs hresolve hi
    simp only [Frame.resolveAll] at hresolve
    split at hresolve
    · cases hresolve
    · next input hinput =>
      split at hresolve
      · cases hresolve
      · next later hrest =>
        cases hresolve
        rcases List.mem_cons.mp hi with rfl | hi
        · exact ⟨p, List.mem_cons_self .., rfl, hinput⟩
        · obtain ⟨q, hq, heq⟩ := ih later hrest hi
          exact ⟨q, List.mem_cons_of_mem _ hq, heq⟩

theorem Rule.invocations_of_single {σ : Type} {rule : Rule σ} {f : Frame} {p : Pattern}
    (hthen : rule.clauses.thenPatterns = [p])
    (hbound : ∀ v ∈ p.input.vars, (f.get? v).isSome = true) :
    ∃ input, rule.invocations f = [(p.action, input)] := by
  obtain ⟨input, hinput⟩ := Frame.resolve_of_bound hbound
  exact ⟨input, by simp [invocations, hthen, Frame.resolveAll, hinput]⟩

end ConceptSync
