import Mathlib.Data.List.Nodup
import ConceptSync.Requesting.Table

set_option autoImplicit false
set_option relaxedAutoImplicit false

/-!
The entries of the table of open requests: what every operation makes of the entry of one
identifier, and that no identifier has two.
-/

namespace ConceptSync

namespace RequestTable

def Distinct (t : RequestTable) : Prop := (t.entries.map OpenRequest.id).Nodup

theorem find?_empty (id : String) : empty.find? id = none := rfl

theorem find?_remove (t : RequestTable) (id other : String) :
    (t.remove id).find? other = if other = id then none else t.find? other := by
  simp only [find?, remove, List.find?_filter]
  split
  · next heq =>
    subst heq
    simp
  · next hne =>
    refine congrArg (fun p => List.find? p t.entries) (funext fun e => ?_)
    by_cases hid : e.id = other
    · simp [hid, hne]
    · simp [hid]

theorem find?_put (t : RequestTable) (e : OpenRequest) (id : String) :
    (t.put e).find? id = if id = e.id then some e else t.find? id := by
  have hput : (t.put e).find? id = ((t.remove e.id).find? id).or
      (if e.id == id then some e else none) := by
    simp only [put, find?, List.find?_append, List.find?_singleton]
  rw [hput, find?_remove]
  by_cases hid : id = e.id
  · simp [hid]
  · simp [hid, Ne.symm hid]

theorem find?_attach (t : RequestTable) (id other : String) (response : Payload) :
    (t.attach id response).find? other =
      if other = id then (t.find? id).map fun e => { e with response := some response }
      else t.find? other := by
  have hid : (fun e : OpenRequest => e.id == other) ∘
      (fun e => if e.id = id then { e with response := some response } else e) =
      fun e => e.id == other := by
    funext e
    simp only [Function.comp]
    split <;> rfl
  simp only [find?, attach, List.find?_map, hid]
  split
  · next heq =>
    subst heq
    refine Option.map_congr fun e he => ?_
    rw [if_pos (by simpa using List.find?_some he)]
  · next hne =>
    cases hfound : t.entries.find? fun e => e.id == other with
    | none => rfl
    | some e =>
      have he : e.id = other := by simpa using List.find?_some hfound
      rw [Option.map_some, if_neg (he ▸ hne)]

private theorem Distinct.find?_reap {t : RequestTable} (h : t.Distinct) (timeout now : Nat)
    (id : String) :
    (t.reap timeout now).find? id = (t.find? id).filter fun e => now - e.opened < timeout := by
  obtain ⟨entries⟩ := t
  simp only [Distinct] at h
  simp only [find?, reap, List.find?_filter]
  induction entries with
  | nil => rfl
  | cons e rest ih =>
    obtain ⟨hnew, hrest⟩ := List.nodup_cons.mp h
    by_cases hid : e.id = id
    · have hnone : ∀ o ∈ rest, o.id ≠ id := by
        rintro o ho rfl
        exact hnew (hid ▸ List.mem_map_of_mem ho)
      by_cases hfresh : now - e.opened < timeout
      · simp [hid, hfresh, Option.filter_some]
      · simpa [hid, hfresh, Option.filter_some] using fun o ho _ => hnone o ho
    · simpa [hid] using ih hrest

theorem Distinct.reap_cases {t : RequestTable} (h : t.Distinct) (timeout now : Nat) (id : String) :
    (t.reap timeout now).find? id = t.find? id ∨
      ∃ e, t.find? id = some e ∧ timeout ≤ now - e.opened ∧
        (t.reap timeout now).find? id = none := by
  rw [h.find?_reap]
  cases t.find? id with
  | none => exact .inl rfl
  | some e =>
    by_cases hfresh : now - e.opened < timeout
    · exact .inl (by simp [Option.filter_some, hfresh])
    · exact .inr ⟨e, rfl, Nat.not_lt.mp hfresh, by simp [Option.filter_some, hfresh]⟩

theorem respond_cases (t : RequestTable) (input : Payload) :
    ((t.respond input).1.isError = true ∧ (t.respond input).2 = t) ∨
      ∃ id e, input.string? "request" = some id ∧ t.find? id = some e ∧ e.response = none ∧
        (t.respond input).1.isError = false ∧
        (t.respond input).2 = t.attach id (input.erase "request") := by
  unfold respond
  split
  · exact .inl ⟨rfl, rfl⟩
  · next id hid =>
    split
    · exact .inl ⟨rfl, rfl⟩
    · next e hfound =>
      split
      · exact .inl ⟨rfl, rfl⟩
      · next hresponse => exact .inr ⟨id, e, hid, hfound, hresponse, rfl, rfl⟩

theorem collect_cases (t : RequestTable) (timeout : Nat) (id : String) :
    (t.find? id = none ∧ t.collect timeout id = (.absent, t)) ∨
      (∃ e, t.find? id = some e ∧ e.response = none ∧
        t.collect timeout id = (.pending (e.opened + timeout), t)) ∨
      ∃ e response, t.find? id = some e ∧ e.response = some response ∧
        t.collect timeout id = (.answer response, t.remove id) := by
  unfold collect
  split
  · next hfound => exact .inl ⟨hfound, rfl⟩
  · next e hfound =>
    split
    · next response hresponse => exact .inr (.inr ⟨e, response, hfound, hresponse, rfl⟩)
    · next hresponse => exact .inr (.inl ⟨e, hfound, hresponse, rfl⟩)

private theorem distinct_filter {t : RequestTable} (h : t.Distinct) (p : OpenRequest → Bool) :
    Distinct ⟨t.entries.filter p⟩ :=
  List.Nodup.sublist (List.filter_sublist.map _) h

namespace Distinct

variable {t : RequestTable}

theorem empty : Distinct empty := List.nodup_nil

theorem remove (h : t.Distinct) (id : String) : (t.remove id).Distinct := distinct_filter h _

private theorem reap (h : t.Distinct) (timeout now : Nat) : (t.reap timeout now).Distinct :=
  distinct_filter h _

private theorem put (h : t.Distinct) (e : OpenRequest) : (t.put e).Distinct := by
  simp only [Distinct, RequestTable.put, List.map_append, List.map_cons, List.map_nil]
  refine List.nodup_append.mpr ⟨h.remove e.id, List.nodup_singleton _, fun a ha b hb => ?_⟩
  obtain ⟨o, ho, rfl⟩ := List.mem_map.mp ha
  obtain rfl := List.mem_singleton.mp hb
  simpa using (List.mem_filter.mp ho).2

private theorem attach (h : t.Distinct) (id : String) (response : Payload) :
    (t.attach id response).Distinct := by
  have hids : (t.attach id response).entries.map OpenRequest.id = t.entries.map OpenRequest.id := by
    simp only [RequestTable.attach, List.map_map]
    refine List.map_congr_left fun e _ => ?_
    simp only [Function.comp]
    split <;> rfl
  rw [Distinct, hids]
  exact h

theorem request (h : t.Distinct) (timeout now : Nat) (id : String) (input : Payload) :
    (t.request timeout now id input).2.Distinct := by
  unfold RequestTable.request
  split
  · exact h
  · exact (h.reap timeout now).put _

theorem respond (h : t.Distinct) (input : Payload) : (t.respond input).2.Distinct := by
  unfold RequestTable.respond
  split
  · exact h
  · split
    · exact h
    · split
      · exact h
      · exact h.attach _ _

theorem openCount (h : t.Distinct) (timeout now : Nat) : (t.openCount timeout now).2.Distinct :=
  h.reap timeout now

theorem collect (h : t.Distinct) (timeout : Nat) (id : String) :
    (t.collect timeout id).2.Distinct := by
  unfold RequestTable.collect
  split
  · exact h
  · split
    · exact h.remove id
    · exact h

end Distinct

end RequestTable

end ConceptSync
