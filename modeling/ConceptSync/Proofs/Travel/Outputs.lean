import ConceptSync.Proofs.Travel.App

set_option autoImplicit false
set_option relaxedAutoImplicit false

/-!
What the actions of the travel concepts answer: an error and nothing else, or every field that the
action declares.
-/

namespace ConceptSync

def Operation.Delivers (op : Operation) (output : Payload) : Prop :=
  (∃ message, output = .error message) ∨
    output.isError = false ∧ ∀ field ∈ op.output.getD [], (output.get? field).isSome = true

def Machine.Delivers {S : Type} (m : Machine S) : Prop :=
  ∀ op ∈ m.operations, op.kind = .action →
    ∃ act, m.action? op.name = some act ∧ ∀ id input s, op.Delivers (act id input s).1

private theorem Operation.delivers_single {op : Operation} {field : String}
    (hfield : op.output = some [field])
    (herror : field ≠ "error") (value : Value) : op.Delivers (.single field value) := by
  refine .inr ⟨?_, ?_⟩
  · simp [Payload.isError, Payload.single, Table.contains, Table.get?, herror]
  · simp [hfield, Payload.single, Table.get?]

private theorem Operation.delivers_nil {op : Operation} (hfield : op.output = none) :
    op.Delivers ([] : Payload) :=
  .inr ⟨rfl, by simp [hfield]⟩

private theorem Operation.delivers_error {op : Operation} (message : String) :
    op.Delivers (.error message) :=
  .inl ⟨message, rfl⟩

private theorem Machine.Delivers.perform {κ S : Type} {m : Machine S} (h : m.Delivers)
    (part : Part κ S)
    {op : Operation} (hop : op ∈ m.operations) (hkind : op.kind = .action) (input : Payload)
    (world : World κ) :
    ∃ output after, m.perform part op.name input world = (.ok output, after) ∧
      op.Delivers output := by
  obtain ⟨act, hact, hdelivers⟩ := h op hop hkind
  unfold Machine.perform
  rw [hact]
  exact ⟨_, _, rfl, hdelivers _ _ _⟩

namespace Travel

open Operation

private theorem TripPlanning.delivers : TripPlanning.machine.Delivers := by
  intro op hop hkind
  simp only [machine, List.mem_cons, List.not_mem_nil, or_false] at hop
  rcases hop with rfl | rfl | rfl | rfl | rfl | rfl
  · refine ⟨create, rfl, fun id input state => ?_⟩
    unfold create
    repeat' split
    all_goals first | exact delivers_error _ | exact delivers_single rfl (by decide) _
  · refine ⟨delete, rfl, fun id input state => ?_⟩
    unfold delete
    repeat' split
    all_goals first | exact delivers_error _ | exact delivers_nil rfl
  · refine ⟨addParticipant, rfl, fun id input state => ?_⟩
    unfold addParticipant
    repeat' split
    all_goals first | exact delivers_error _ | exact delivers_nil rfl
  · cases hkind
  · cases hkind
  · cases hkind

private theorem ItineraryPlanner.delivers : ItineraryPlanner.machine.Delivers := by
  intro op hop hkind
  simp only [machine, List.mem_cons, List.not_mem_nil, or_false] at hop
  rcases hop with rfl | rfl | rfl | rfl | rfl | rfl | rfl | rfl | rfl | rfl
  · refine ⟨create, rfl, fun id input state => ?_⟩
    unfold create
    repeat' split
    all_goals first | exact delivers_error _ | exact delivers_single rfl (by decide) _
  · refine ⟨addEvent, rfl, fun id input state => ?_⟩
    unfold addEvent
    repeat' split
    all_goals first | exact delivers_error _ | exact delivers_single rfl (by decide) _
  · refine ⟨approveEvent, rfl, fun id input state => ?_⟩
    unfold approveEvent
    repeat' split
    all_goals first | exact delivers_error _ | exact delivers_nil rfl
  · refine ⟨attachPollToEvent, rfl, fun id input state => ?_⟩
    unfold attachPollToEvent
    repeat' split
    all_goals first | exact delivers_error _ | exact delivers_nil rfl
  · refine ⟨finalizeItinerary, rfl, fun id input state => ?_⟩
    unfold finalizeItinerary
    repeat' split
    all_goals first | exact delivers_error _ | exact delivers_nil rfl
  · cases hkind
  · cases hkind
  · cases hkind
  · cases hkind
  · cases hkind

private theorem Polling.delivers : Polling.machine.Delivers := by
  intro op hop hkind
  simp only [machine, List.mem_cons, List.not_mem_nil, or_false] at hop
  rcases hop with rfl | rfl | rfl | rfl | rfl
  · refine ⟨create, rfl, fun id input state => ?_⟩
    unfold create
    repeat' split
    all_goals first | exact delivers_error _ | exact delivers_single rfl (by decide) _
  · refine ⟨addOption, rfl, fun id input state => ?_⟩
    unfold addOption
    repeat' split
    all_goals first | exact delivers_error _ | exact delivers_nil rfl
  · refine ⟨addVote, rfl, fun id input state => ?_⟩
    unfold addVote
    repeat' split
    all_goals first | exact delivers_error _ | exact delivers_nil rfl
  · refine ⟨close, rfl, fun id input state => ?_⟩
    unfold close
    repeat' split
    all_goals first | exact delivers_error _ | exact delivers_nil rfl
  · cases hkind

private theorem CostSplitting.delivers : CostSplitting.machine.Delivers := by
  intro op hop hkind
  simp only [machine, List.mem_cons, List.not_mem_nil, or_false] at hop
  rcases hop with rfl | rfl | rfl | rfl | rfl
  · refine ⟨create, rfl, fun id input state => ?_⟩
    unfold create
    repeat' split
    all_goals first | exact delivers_error _ | exact delivers_single rfl (by decide) _
  · refine ⟨remove, rfl, fun id input state => ?_⟩
    unfold remove
    repeat' split
    all_goals first | exact delivers_error _ | exact delivers_nil rfl
  · refine ⟨addContribution, rfl, fun id input state => ?_⟩
    unfold addContribution
    repeat' split
    all_goals first | exact delivers_error _ | exact delivers_nil rfl
  · cases hkind
  · cases hkind

private theorem delivers_of_concept {c : Concept TravelWorld} (hc : c ∈ concepts)
    (hother : c.name ≠ Sessions.name) {op : Operation} (hop : op ∈ c.operations)
    (hkind : op.kind = .action) (input : Payload) (world : TravelWorld) :
    ∃ output after, c.perform op.name input world = (.ok output, after) ∧ op.Delivers output := by
  simp only [concepts, List.mem_cons, List.not_mem_nil, or_false] at hc
  rcases hc with rfl | rfl | rfl | rfl | rfl
  · exact absurd rfl hother
  · exact TripPlanning.delivers.perform State.tripsPart hop hkind input world
  · exact ItineraryPlanner.delivers.perform State.plannerPart hop hkind input world
  · exact Polling.delivers.perform State.pollsPart hop hkind input world
  · exact CostSplitting.delivers.perform State.costsPart hop hkind input world

private theorem declared_of_handler : ∀ h ∈ handlers, ∀ c ∈ concepts, ∀ op ∈ c.operations,
    qualifiedName c.name op.name = qualifiedName h.concept h.action →
      c.name ≠ Sessions.name ∧ op.kind = .action ∧
        (h.fromOutput = true → ∀ e ∈ h.answers, e.2 ∈ op.output.getD []) := by
  decide +kernel

namespace App.IsBuilt

variable {config : AppConfig} {app : App}

theorem delivers (happ : app.IsBuilt config) {h : Handler} (hh : h ∈ handlers) {action : ActionId}
    (hname : app.engine.registry.nameOf action = qualifiedName h.concept h.action)
    (input : Payload) (world : TravelWorld) :
    ∃ output after, app.engine.registry.perform action input world = (.ok output, after) ∧
      ((∃ message, output = .error message) ∨ output.isError = false ∧
        (h.fromOutput = true → ∀ e ∈ h.answers, (output.get? e.2).isSome = true)) := by
  have hregistered : ∀ h ∈ handlers, qualifiedName h.concept h.action ≠ "<unregistered>" ∧
      ∀ op ∈ Requesting.operations,
        qualifiedName Requesting.name op.name ≠ qualifiedName h.concept h.action := by
    decide +kernel
  obtain ⟨hknown, hothers⟩ := hregistered h hh
  obtain ⟨c, hc, op, hop, hqualified, hperform⟩ := happ.entry_of_name (hname ▸ hknown)
  have heq := hqualified.symm.trans hname
  rcases List.mem_cons.mp hc with rfl | hc
  · exact absurd heq (hothers op hop)
  · obtain ⟨hother, hkind, hdeclares⟩ := declared_of_handler h hh c hc op hop heq
    obtain ⟨output, after, hok, hdelivers⟩ := delivers_of_concept hc hother hop hkind input world
    refine ⟨output, after, hperform input ▸ hok, hdelivers.imp_right fun hsuccess => ?_⟩
    exact ⟨hsuccess.1, fun hfrom e he => hsuccess.2 _ (hdeclares hfrom e he)⟩

end App.IsBuilt

end Travel

end ConceptSync
