import Mathlib.Data.List.Nodup
import ConceptSync.Proofs.Registry

set_option autoImplicit false
set_option relaxedAutoImplicit false

/-!
What an operation is known by. It is registered under one text, its concept's name and its own with
a dot between them, and two operations whose names have dots in different places may be registered
under the same. So the name of a concept and a name stand for that operation of that concept exactly
if no operation of another concept took the text from it.
-/

namespace ConceptSync

variable {σ : Type}

private theorem qualifiedName_right_inj {concept m n : String}
    (h : qualifiedName concept m = qualifiedName concept n) : m = n := by
  have htext : (concept ++ ".") ++ m = (concept ++ ".") ++ n := h
  simpa using htext

theorem splitAtFirst?_append {mark : Char} {before after : List Char} (h : mark ∉ before) :
    Text.splitAtFirst? mark (before ++ mark :: after) = some (before, after) := by
  induction before with
  | nil => simp [Text.splitAtFirst?]
  | cons c rest ih =>
    obtain ⟨hne, hrest⟩ := not_or.mp (mt List.mem_cons.mpr h)
    simp [Text.splitAtFirst?, Ne.symm hne, ih hrest]

theorem splitQualified_qualifiedName {concept : String} (h : '.' ∉ concept.toList) (name : String) :
    Text.splitQualified (qualifiedName concept name) = (concept, name) := by
  have hlist : (qualifiedName concept name).toList = concept.toList ++ '.' :: name.toList := by
    simp [qualifiedName]
  simp [Text.splitQualified, hlist, splitAtFirst?_append h]

namespace Registry

variable {r : Registry σ}

def Latest (r : Registry σ) (qualified : String) (e : Entry σ) : Prop :=
  ∃ before after, r.entries = before ++ e :: after ∧ e.qualified = qualified ∧
    ∀ later ∈ after, later.qualified ≠ qualified

structure StandsFor (r : Registry σ) (id : ActionId) (c : Concept σ) (action : String) : Prop where
  declares : ∃ op ∈ c.operations, op.kind = .action ∧ op.name = action
  /-- What is performed is that action of that concept and of no other. -/
  entry : ∃ e, r.entry? id = some e ∧ e.concept = c ∧ e.operation.name = action
  performs : ∀ input, r.perform id input = c.perform action input

/-- Concepts and names stand for the operations that the concepts declare under them. -/
structure Identifies (r : Registry σ) : Prop where
  actions : ∀ concept name id, r.action concept name = .ok id →
    ∃ c ∈ r.concepts, c.name = concept ∧ r.StandsFor id c name
  queries : ∀ concept name q, r.query concept name = .ok q →
    ∃ c ∈ r.concepts, c.name = concept ∧ (∃ op ∈ c.operations, op.kind = .query ∧ op.name = name) ∧
      ∀ input, q.call input = c.query name input
  lasting : ∀ later r', r.registerAll later = .ok r' → ∀ concept name id,
    r.action concept name = .ok id →
      r'.entry? id = r.entry? id ∧ ∀ input, r'.perform id input = r.perform id input

/-- A concept that is asked for an operation by name is answered for by another concept, which took
the text that the two names make: with an action, or with a query where the concept that is asked
has none of that name. -/
def Confuses (r : Registry σ) : Prop :=
  ∃ c ∈ r.concepts, ∃ name e, r.Latest (qualifiedName c.name name) e ∧ e.concept.name ≠ c.name ∧
    (e.operation.kind = .action ∨ ∀ op ∈ c.operations, op.kind = .query → op.name ≠ name)

private theorem exists_lookup_iff {qualified : String} {e : Entry σ} :
    (∃ id, r.lookup qualified = some id ∧ r.entry? id = some e) ↔ r.Latest qualified e := by
  constructor
  · rintro ⟨id, hlookup, hentry⟩
    obtain ⟨⟨found, k⟩, hfound, rfl⟩ := Option.map_eq_some_iff.mp hlookup
    have hmem := List.mem_reverse.mp (List.mem_of_find?_eq_some hfound)
    have hthere : r.entry? ⟨k⟩ = some found := List.mem_zipIdx_iff_getElem?.mp hmem
    obtain rfl : found = e := Option.some.inj (hthere.symm.trans hentry)
    obtain ⟨hname, after, before, hsplit, hnone⟩ := List.find?_eq_some_iff_append.mp hfound
    have hentries : r.entries =
        before.reverse.map Prod.fst ++ found :: after.reverse.map Prod.fst := by
      have hunzipped := congrArg (List.map Prod.fst) (congrArg List.reverse hsplit)
      simpa using hunzipped
    refine ⟨_, _, hentries, by simpa using hname, fun later hlater => ?_⟩
    obtain ⟨⟨later, k⟩, hpair, rfl⟩ := List.mem_map.mp hlater
    simpa using hnone _ (List.mem_reverse.mp hpair)
  · rintro ⟨before, after, hentries, hname, hlast⟩
    have hnone : (after.zipIdx (before.length + 1)).reverse.find?
        (fun e => e.1.qualified == qualified) = none := by
      refine List.find?_eq_none.mpr fun later hlater => ?_
      have hmem := List.fst_mem_of_mem_zipIdx (List.mem_reverse.mp hlater)
      simpa using hlast later.1 hmem
    refine ⟨⟨before.length⟩, ?_, by simp [hentries, entry?]⟩
    simp [lookup, hentries, List.zipIdx_append, hnone, hname]

private theorem register_new {c : Concept σ} {r' : Registry σ} (h : r.register c = .ok r') :
    c.name ∉ r.concepts.map Concept.name ∧ r'.concepts = r.concepts ++ [c] := by
  unfold register at h
  split at h
  · cases h
  · next hnew =>
    cases h
    refine ⟨fun hmem => ?_, rfl⟩
    obtain ⟨old, hold, hname⟩ := List.mem_map.mp hmem
    exact hnew (List.find?_isSome.mpr ⟨old, hold, by simpa using hname⟩)

private theorem nodup_registerAll {cs : List (Concept σ)} {r' : Registry σ}
    (hr : (r.concepts.map Concept.name).Nodup) (h : r.registerAll cs = .ok r') :
    (r'.concepts.map Concept.name).Nodup := by
  induction cs generalizing r with
  | nil =>
    cases h
    exact hr
  | cons c rest ih =>
    simp only [registerAll] at h
    split at h
    · next next hregister =>
      obtain ⟨hnew, hconcepts⟩ := register_new hregister
      refine ih ?_ h
      rw [hconcepts, List.map_append, List.map_singleton, ← List.concat_eq_append]
      exact hr.concat hnew
    · cases h

structure Registered (r : Registry σ) : Prop where
  names : (r.concepts.map Concept.name).Nodup
  entries : r.entries = r.concepts.flatMap Concept.entries

private theorem registered {cs : List (Concept σ)} (h : empty.registerAll cs = .ok r) :
    r.Registered := by
  obtain ⟨hentries, hconcepts⟩ := entries_registerAll h
  have hall : r.concepts = cs := hconcepts
  exact ⟨nodup_registerAll (r := empty) List.nodup_nil h, hall ▸ hentries⟩

namespace Registered

variable {c : Concept σ} {e : Entry σ} {name : String}

private theorem eq_of_name (h : r.Registered) {c' : Concept σ} (hc : c ∈ r.concepts)
    (hc' : c' ∈ r.concepts) (hname : c.name = c'.name) : c = c' :=
  List.inj_on_of_nodup_map h.names hc hc' hname

private theorem declared (h : r.Registered) (he : e ∈ r.entries) :
    e.concept ∈ r.concepts ∧ e.operation ∈ e.concept.operations ∧
      e.qualified = qualifiedName e.concept.name e.operation.name := by
  rw [h.entries] at he
  obtain ⟨c, hc, he⟩ := List.mem_flatMap.mp he
  obtain ⟨op, hop, rfl⟩ := List.mem_map.mp he
  exact ⟨hc, hop, rfl⟩

private theorem latest_own (h : r.Registered) (hc : c ∈ r.concepts)
    (hlatest : r.Latest (qualifiedName c.name name) e) (hname : e.concept.name = c.name) :
    e.concept = c ∧ e.operation ∈ c.operations ∧ e.operation.name = name := by
  obtain ⟨before, after, hentries, hqualified, _⟩ := hlatest
  have he : e ∈ r.entries := hentries ▸ List.mem_append_right _ (List.mem_cons_self ..)
  obtain ⟨hconcept, hop, htext⟩ := h.declared he
  obtain rfl := h.eq_of_name hconcept hc hname
  exact ⟨rfl, hop, qualifiedName_right_inj (htext.symm.trans hqualified)⟩

end Registered

private theorem entry_of_registerAll {later : List (Concept σ)} {r' : Registry σ} {id : ActionId}
    {e : Entry σ} (h : r.registerAll later = .ok r') (he : r.entry? id = some e) :
    r'.entry? id = some e := by
  have hthere : r.entries[id.index]? = some e := he
  unfold entry?
  rw [(entries_registerAll h).1, List.getElem?_append_left, hthere]
  exact (List.getElem?_eq_some_iff.mp hthere).choose

private theorem perform_of_registerAll {later : List (Concept σ)} {r' : Registry σ} {id : ActionId}
    {e : Entry σ} (h : r.registerAll later = .ok r') (he : r.entry? id = some e) (input : Payload) :
    r'.perform id input = r.perform id input := by
  simp only [perform, he, entry_of_registerAll h he]

section Asking

variable {concept name qualified : String} {kind : OperationKind} {id : ActionId} {e : Entry σ}

private theorem latest_of_lookupKind (h : r.lookupKind kind qualified = some id) :
    ∃ e, r.entry? id = some e ∧ r.Latest qualified e ∧ e.operation.kind = kind := by
  obtain ⟨found, hlookup, hkind⟩ := Option.bind_eq_some_iff.mp h
  split at hkind
  · next hsame =>
    cases hkind
    obtain ⟨e, hentry, hkind⟩ := Option.map_eq_some_iff.mp hsame
    exact ⟨e, hentry, exists_lookup_iff.mp ⟨id, hlookup, hentry⟩, hkind⟩
  · cases hkind

private theorem exists_lookupKind (h : r.Latest qualified e) :
    ∃ id, r.lookupKind e.operation.kind qualified = some id ∧ r.entry? id = some e := by
  obtain ⟨id, hlookup, hentry⟩ := exists_lookup_iff.mpr h
  exact ⟨id, by simp [lookupKind, hlookup, kind?, hentry], hentry⟩

private theorem concept_of_mem {c : Concept σ} (hr : r.Registered) (hc : c ∈ r.concepts) :
    r.concept? c.name = some c := by
  cases hfound : r.concept? c.name with
  | none => exact absurd (List.find?_eq_none.mp hfound c hc) (by simp)
  | some c' =>
    have hname : c'.name = c.name := by simpa using List.find?_some hfound
    exact congrArg some (hr.eq_of_name (List.mem_of_find?_eq_some hfound) hc hname)

private theorem latest_of_action (h : r.action concept name = .ok id) :
    ∃ c ∈ r.concepts, c.name = concept ∧ ∃ e, r.entry? id = some e ∧
      r.Latest (qualifiedName concept name) e ∧ e.operation.kind = .action := by
  unfold action at h
  split at h
  · cases h
  · next c hconcept =>
    split at h
    · next hfound =>
      cases h
      exact ⟨c, List.mem_of_find?_eq_some hconcept, by simpa using List.find?_some hconcept,
        latest_of_lookupKind hfound⟩
    · cases h

private theorem latest_of_query {q : QueryHandle σ} (h : r.query concept name = .ok q) :
    (q.concept ∈ r.concepts ∧ q.concept.name = concept ∧ q.name = name) ∧
      ∃ e, r.Latest (qualifiedName concept name) e ∧ e.operation.kind = .query := by
  refine ⟨query_ok h, ?_⟩
  unfold query at h
  split at h
  · cases h
  · split at h
    · next hfound =>
      obtain ⟨e, _, hlatest, hkind⟩ := latest_of_lookupKind hfound
      exact ⟨e, hlatest, hkind⟩
    · cases h

end Asking

private theorem Identifies.not_confuses (hr : r.Registered) (h : r.Identifies) : ¬ r.Confuses := by
  rintro ⟨c, hc, name, e, hlatest, hother, hkind⟩
  obtain ⟨id, hfound, hentry⟩ := exists_lookupKind hlatest
  have hconcept := concept_of_mem hr hc
  cases hop : e.operation.kind with
  | action =>
    rw [hop] at hfound
    have hasked : r.action c.name name = .ok id := by simp [action, hconcept, hfound]
    obtain ⟨c', _, hname, hstands⟩ := h.actions _ _ _ hasked
    obtain ⟨e', hentry', rfl, _⟩ := hstands.entry
    obtain rfl : e = e' := Option.some.inj (hentry.symm.trans hentry')
    exact hother hname
  | query =>
    rw [hop] at hfound
    have hasked : r.query c.name name = .ok ⟨c, name, qualifiedName c.name name⟩ := by
      simp [query, hconcept, hfound]
    obtain ⟨c', hc', hname, ⟨op, hmem, hquery, hopname⟩, _⟩ := h.queries _ _ _ hasked
    obtain rfl := hr.eq_of_name hc' hc hname
    rcases hkind with haction | hnone
    · rw [hop] at haction
      cases haction
    · exact hnone op hmem hquery hopname

private theorem identifies_of_not_confuses (hr : r.Registered) (h : ¬ r.Confuses) :
    r.Identifies where
  actions concept name id hasked := by
    obtain ⟨c, hc, rfl, e, hentry, hlatest, hkind⟩ := latest_of_action hasked
    have hsame : e.concept.name = c.name := by
      by_contra hother
      exact h ⟨c, hc, name, e, hlatest, hother, .inl hkind⟩
    obtain ⟨hconcept, hop, hname⟩ := hr.latest_own hc hlatest hsame
    refine ⟨c, hc, rfl, ⟨e.operation, hop, hkind, hname⟩, ⟨e, hentry, hconcept, hname⟩, ?_⟩
    intro input
    simp only [perform, hentry, hconcept, hname]
  queries concept name q hasked := by
    obtain ⟨⟨hc, rfl, hname⟩, e, hlatest, hkind⟩ := latest_of_query hasked
    refine ⟨q.concept, hc, rfl, ?_, fun input => by rw [QueryHandle.call, hname]⟩
    by_cases hsame : e.concept.name = q.concept.name
    · obtain ⟨_, hop, hopname⟩ := hr.latest_own hc hlatest hsame
      exact ⟨e.operation, hop, hkind, hopname⟩
    · -- another concept's query took the text, so the concept has one of its own
      by_contra hnone
      refine h ⟨q.concept, hc, name, e, hlatest, hsame, .inr ?_⟩
      intro op hop hquery hopname
      exact hnone ⟨op, hop, hquery, hopname⟩
  lasting later r' hlater concept name id hasked := by
    obtain ⟨_, _, _, e, he, _⟩ := latest_of_action hasked
    exact ⟨(entry_of_registerAll hlater he).trans he.symm, perform_of_registerAll hlater he⟩

private theorem not_confuses_of_dotless (hr : r.Registered)
    (hdotless : ∀ c ∈ r.concepts, '.' ∉ c.name.toList) : ¬ r.Confuses := by
  rintro ⟨c, hc, name, e, ⟨before, after, hentries, hqualified, _⟩, hother, _⟩
  have he : e ∈ r.entries := hentries ▸ List.mem_append_right _ (List.mem_cons_self ..)
  obtain ⟨hconcept, _, htext⟩ := hr.declared he
  have hsplit := splitQualified_qualifiedName (hdotless _ hconcept) e.operation.name
  rw [← htext, hqualified, splitQualified_qualifiedName (hdotless c hc)] at hsplit
  exact hother (congrArg Prod.fst hsplit).symm

/-- Whatever concepts are registered, with whatever names: the name of a concept and a name stand
for that operation of that concept exactly if no other concept answers for it under the same text.
So they do where no concept has a dot in its name. In any case identities once given last. -/
theorem identifies_iff {cs : List (Concept σ)} (h : empty.registerAll cs = .ok r) :
    (r.Identifies ↔ ¬ r.Confuses) ∧
      ((∀ c ∈ cs, '.' ∉ c.name.toList) → r.Identifies) ∧
      ∀ later r', r.registerAll later = .ok r' → ∀ id e, r.entry? id = some e →
        r'.entry? id = some e ∧ ∀ input, r'.perform id input = r.perform id input := by
  have hr := registered h
  have hconcepts : r.concepts = cs := (entries_registerAll h).2
  refine ⟨⟨fun hidentifies => hidentifies.not_confuses hr, identifies_of_not_confuses hr⟩, ?_, ?_⟩
  · intro hdotless
    exact identifies_of_not_confuses hr (not_confuses_of_dotless hr (hconcepts ▸ hdotless))
  · intro later r' hlater id e he
    exact ⟨entry_of_registerAll hlater he, perform_of_registerAll hlater he⟩

def stall (name : String) (operations : List Operation) : Concept Unit where
  name := name
  operations := operations
  perform _ _ := pure (.single "by" (.string name))
  query _ _ := pure []

/-- Operations may have dots in their names, and actions and queries one name. -/
theorem identifies_iff_dottedOperations :
    ∃ r, empty.registerAll [stall "Shop" [.action "cart.add", .query "cart.items", .action "cart"],
      stall "Cart" [.action "add", .query "add"]] = .ok r ∧ r.Identifies := by
  obtain ⟨r, hr⟩ : ∃ r, empty.registerAll
      [stall "Shop" [.action "cart.add", .query "cart.items", .action "cart"],
        stall "Cart" [.action "add", .query "add"]] = .ok r := ⟨_, rfl⟩
  exact ⟨r, hr, (identifies_iff hr).2.1 (by decide)⟩

/-- Asked for its own action, the shop is answered for by its cart, and a query that it does not
declare is found. -/
theorem not_identifies_shopCart :
    ∃ r, empty.registerAll [stall "Shop" [.action "cart.add"],
        stall "Shop.cart" [.action "add", .query "items"]] = .ok r ∧
      r.action "Shop" "cart.add" = .ok ⟨1⟩ ∧
      r.perform ⟨1⟩ [] () = (.ok (.single "by" (.string "Shop.cart")), ()) ∧
      (∃ q, r.query "Shop" "cart.items" = .ok q) ∧ ¬ r.Identifies := by
  refine ⟨_, rfl, by decide +kernel, rfl, ⟨_, rfl⟩, fun h => ?_⟩
  obtain ⟨c, _, hname, hstands⟩ := h.actions "Shop" "cart.add" ⟨1⟩ (by decide +kernel)
  obtain ⟨e, hentry, rfl, _⟩ := hstands.entry
  cases hentry
  exact absurd hname (by decide)

end Registry

end ConceptSync
