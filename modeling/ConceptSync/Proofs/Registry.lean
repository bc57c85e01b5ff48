import Mathlib.Data.List.Basic
import ConceptSync.Registry

set_option autoImplicit false
set_option relaxedAutoImplicit false

/-!
What a registry finds: an operation that is looked up bears the name it was looked up by, and a
registry holds the operations of the registered concepts and no other.
-/

namespace ConceptSync

variable {σ : Type}

def Concept.entries (c : Concept σ) : List (Entry σ) :=
  c.operations.map fun op => ⟨c, op, qualifiedName c.name op.name⟩

namespace Registry

variable {r : Registry σ}

theorem entry_of_lookup {qualified : String} {id : ActionId} (h : r.lookup qualified = some id) :
    ∃ e ∈ r.entries, r.entry? id = some e ∧ e.qualified = qualified := by
  obtain ⟨⟨e, k⟩, hfound, rfl⟩ := Option.map_eq_some_iff.mp h
  have hmem := List.mem_reverse.mp (List.mem_of_find?_eq_some hfound)
  have hname := List.find?_some hfound
  have hentry : r.entries[k]? = some e := List.mem_zipIdx_iff_getElem?.mp hmem
  exact ⟨e, List.mem_of_getElem? hentry, hentry, by simpa using hname⟩

theorem nameOf_of_lookup {qualified : String} {id : ActionId} (h : r.lookup qualified = some id) :
    r.nameOf id = qualified := by
  obtain ⟨e, _, hentry, hname⟩ := entry_of_lookup h
  simp [nameOf, hentry, hname]

theorem exists_lookup_of_entry {id : ActionId} {e : Entry σ} (h : r.entry? id = some e) :
    ∃ found, r.lookup (r.nameOf id) = some found := by
  have hname : r.nameOf id = e.qualified := by simp [nameOf, h]
  have hsome : (r.entries.zipIdx.reverse.find? fun f => f.1.qualified == e.qualified).isSome := by
    refine List.find?_isSome.mpr ⟨(e, id.index), ?_, by simp⟩
    exact List.mem_reverse.mpr (List.mem_zipIdx_iff_getElem?.mpr h)
  obtain ⟨found, hfound⟩ := Option.isSome_iff_exists.mp hsome
  exact ⟨⟨found.2⟩, by rw [hname, lookup, hfound]; rfl⟩

theorem entry_of_perform {id : ActionId} {input output : Payload} {world after : σ}
    (h : r.perform id input world = (.ok output, after)) : ∃ e, r.entry? id = some e := by
  cases hentry : r.entry? id with
  | none =>
    simp only [perform, hentry] at h
    cases h
  | some e => exact ⟨e, rfl⟩

theorem entry_of_nameOf {id : ActionId} (h : r.nameOf id ≠ "<unregistered>") :
    ∃ e ∈ r.entries, r.entry? id = some e ∧ e.qualified = r.nameOf id := by
  unfold nameOf at h ⊢
  cases hentry : r.entry? id with
  | none => simp [hentry] at h
  | some e => exact ⟨e, List.mem_of_getElem? hentry, rfl, rfl⟩

theorem action_ok {concept name : String} {id : ActionId} (h : r.action concept name = .ok id) :
    r.lookup (qualifiedName concept name) = some id ∧ r.kind? id = some .action := by
  unfold action at h
  split at h
  · cases h
  · split at h
    · next hkind =>
      cases h
      obtain ⟨id, hlookup, hkind⟩ := Option.bind_eq_some_iff.mp hkind
      split at hkind
      · next haction =>
        cases hkind
        exact ⟨hlookup, haction⟩
      · cases hkind
    · cases h

theorem nameOf_of_action {concept name : String} {id : ActionId}
    (h : r.action concept name = .ok id) : r.nameOf id = qualifiedName concept name :=
  nameOf_of_lookup (action_ok h).1

theorem exists_of_query {concept name : String} {q : QueryHandle σ}
    (h : r.query concept name = .ok q) :
    ∃ c id, r.concept? concept = some c ∧ r.lookup (qualifiedName concept name) = some id ∧
      r.kind? id = some .query ∧ q = ⟨c, name, qualifiedName concept name⟩ := by
  unfold query at h
  split at h
  · cases h
  · next c hconcept =>
    split at h
    · next hkind =>
      cases h
      obtain ⟨id, hlookup, hfound⟩ := Option.bind_eq_some_iff.mp hkind
      exact ⟨c, id, hconcept, hlookup, (Option.ite_none_right_eq_some.mp hfound).1, rfl⟩
    · cases h

theorem query_ok {concept name : String} {q : QueryHandle σ} (h : r.query concept name = .ok q) :
    q.concept ∈ r.concepts ∧ q.concept.name = concept ∧ q.name = name := by
  obtain ⟨c, _, hconcept, _, _, rfl⟩ := exists_of_query h
  exact ⟨List.mem_of_find?_eq_some hconcept, by simpa using List.find?_some hconcept, rfl⟩

private theorem register_ok {c : Concept σ} {r' : Registry σ} (h : r.register c = .ok r') :
    r'.entries = r.entries ++ c.entries ∧ r'.concepts = r.concepts ++ [c] := by
  unfold register at h
  split at h
  · cases h
  · cases h
    exact ⟨rfl, rfl⟩

theorem entries_registerAll {cs : List (Concept σ)} {r' : Registry σ}
    (h : r.registerAll cs = .ok r') :
    r'.entries = r.entries ++ cs.flatMap Concept.entries ∧ r'.concepts = r.concepts ++ cs := by
  induction cs generalizing r with
  | nil =>
    cases h
    simp
  | cons c rest ih =>
    simp only [registerAll] at h
    split at h
    · next next hregister =>
      obtain ⟨hentries, hconcepts⟩ := register_ok hregister
      obtain ⟨hentries', hconcepts'⟩ := ih h
      rw [hentries', hconcepts', hentries, hconcepts]
      simp
    · cases h

end Registry

end ConceptSync
