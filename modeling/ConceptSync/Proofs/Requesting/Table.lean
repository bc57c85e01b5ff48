import ConceptSync.Requesting.Table

set_option autoImplicit false
set_option relaxedAutoImplicit false

/-!
One open request in the table: how it is found, answered once and collected, while the entries of
other identifiers stay as they are.
-/

namespace ConceptSync

namespace RequestTable

/-- The table is an open request after entries of other identifiers. -/
structure Holds (t : RequestTable) (others : List OpenRequest) (e : OpenRequest) : Prop where
  entries : t.entries = others ++ [e]
  different : ∀ o ∈ others, o.id ≠ e.id

theorem holds_put (t : RequestTable) (e : OpenRequest) :
    (t.put e).Holds (t.remove e.id).entries e := by
  refine ⟨rfl, fun o ho => ?_⟩
  simpa using (List.mem_filter.mp ho).2

namespace Holds

variable {t : RequestTable} {others : List OpenRequest} {e : OpenRequest}

private theorem find? (h : t.Holds others e) : t.find? e.id = some e := by
  have hnone : others.find? (fun o => o.id == e.id) = none := by
    simpa using h.different
  simp [RequestTable.find?, h.entries, hnone]

theorem peek (h : t.Holds others e) : t.peek e.id = e.response := by
  simp [RequestTable.peek, h.find?]

theorem attach (h : t.Holds others e) (response : Payload) :
    (t.attach e.id response).Holds others { e with response := some response } := by
  have hothers : others.map
      (fun o => if o.id = e.id then { o with response := some response } else o) = others :=
    (List.map_congr_left fun o ho => if_neg (h.different o ho)).trans (List.map_id _)
  exact ⟨by simp [RequestTable.attach, h.entries, hothers], h.different⟩

theorem respond_of_unanswered (h : t.Holds others e) {input : Payload}
    (hinput : input.string? "request" = some e.id) (hresponse : e.response = none) :
    t.respond input =
      (.single "request" (.string e.id), t.attach e.id (input.erase "request")) := by
  simp [respond, hinput, h.find?, hresponse]

theorem respond_of_answered (h : t.Holds others e) {input response : Payload}
    (hinput : input.string? "request" = some e.id) (hresponse : e.response = some response) :
    t.respond input = (.error ("Request " ++ e.id ++ " already has a response"), t) := by
  simp [respond, hinput, h.find?, hresponse]

theorem collect (h : t.Holds others e) (timeout : Nat) {response : Payload}
    (hresponse : e.response = some response) :
    t.collect timeout e.id = (.answer response, ⟨others⟩) := by
  have hothers : others.filter (fun o => o.id != e.id) = others := by
    simpa using h.different
  simp [RequestTable.collect, h.find?, hresponse, remove, h.entries, hothers]

end Holds

end RequestTable

end ConceptSync
