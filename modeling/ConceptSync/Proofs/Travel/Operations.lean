import ConceptSync.Proofs.Requesting.Replies
import ConceptSync.Proofs.Travel.App

set_option autoImplicit false
set_option relaxedAutoImplicit false

/-!
What rules may rely on when they call the operations of the travel application: actions for users
run in the background of requests, and queries that do not wait change nothing.
-/

namespace ConceptSync

/-- The identifier that is issued next. -/
def World.nextId {κ : Type} (w : World κ) : String := (Uuid.issue .item (w.issued + 1)).text

namespace Machine

variable {κ S : Type} (m : Machine S) (part : Part κ S)

private theorem perform_unbroken (action : String) (input : Payload) (world : World κ) (b : Break) :
    (m.perform part action input world).1 ≠ .broken b := by
  unfold perform
  cases m.action? action with
  | none => nofun
  | some act => nofun

private theorem requests_perform (action : String) (input : Payload) (world : World κ) :
    (m.perform part action input world).2.requests = world.requests := by
  unfold perform
  cases m.action? action with
  | none => rfl
  | some act => rfl

theorem perform_eq {action : String} {act : String → Payload → S → Payload × S}
    (hact : m.action? action = some act) (input : Payload) (world : World κ) :
    m.perform part action input world =
      (.ok (act world.nextId input (part.get world.state)).1,
        { world with
          issued := world.issued + 1
          state := part.set world.state (act world.nextId input (part.get world.state)).2 }) := by
  unfold perform
  rw [hact]
  rfl

theorem asks_ask (query : String) (input : Payload) :
    (m.ask part query input).Asks fun _ => True := by
  unfold ask
  cases m.query? query with
  | none => exact .fail _
  | some answer => exact .read fun _ => trivial

end Machine

namespace Requesting

variable {κ : Type} (config : RequestingConfig)

private theorem asks_getResponse (input : Payload) :
    (query (κ := κ) config "_getResponse" input).Asks fun _ => True := by
  change (about "_getResponse" input _).Asks _
  unfold about
  cases input.string? "request" with
  | none => exact .fail _
  | some id => exact .bind (P := fun _ => True) (.read fun _ => trivial) fun _ _ => .pure trivial

private theorem getResponse_eq (id : String) (world : World κ) :
    query config "_getResponse" (.single "request" (.string id)) world =
      (.ok ((world.requests.peek id).toList.map responseRow), world) :=
  rfl

end Requesting

namespace Travel

structure Operates (registry : Registry TravelWorld) : Prop where
  background : ∀ action, actsForUser (registry.nameOf action) = true → registry.Background action
  asks : ∀ concept name q, registry.query concept name = .ok q → name ≠ "_awaitResponse" →
    ∀ input, (q.call input).Asks fun _ => True
  responses : ∀ q, registry.query "Requesting" "_getResponse" = .ok q → ∀ id world,
    q.call (.single "request" (.string id)) world =
      (.ok ((world.requests.peek id).toList.map Requesting.responseRow), world)

private theorem concept_cases {c : Concept TravelWorld} (hc : c ∈ concepts) :
    c = Sessions.concept State.sessionsPart ∨
      ∃ (S : Type) (m : Machine S) (part : Part State S), c = m.concept part := by
  simp only [concepts, List.mem_cons, List.not_mem_nil, or_false] at hc
  rcases hc with rfl | rfl | rfl | rfl | rfl
  · exact .inl rfl
  · exact .inr ⟨_, _, _, rfl⟩
  · exact .inr ⟨_, _, _, rfl⟩
  · exact .inr ⟨_, _, _, rfl⟩
  · exact .inr ⟨_, _, _, rfl⟩

private theorem not_actsForUser :
    (∀ op ∈ Sessions.operations, actsForUser (qualifiedName Sessions.name op.name) = false) ∧
      ∀ op ∈ Requesting.operations,
        actsForUser (qualifiedName Requesting.name op.name) = false := by
  decide

namespace App.IsBuilt

variable {config : AppConfig} {app : App}

private theorem background (happ : app.IsBuilt config) {action : ActionId}
    (hacts : actsForUser (app.engine.registry.nameOf action) = true) :
    app.engine.registry.Background action := by
  have hregistered : app.engine.registry.nameOf action ≠ "<unregistered>" := by
    intro heq
    rw [heq] at hacts
    exact absurd hacts (by decide)
  obtain ⟨c, hc, op, hop, hname, hperform⟩ := happ.entry_of_name hregistered
  have hmachine : ∃ (S : Type) (m : Machine S) (part : Part State S), c = m.concept part := by
    rw [hname] at hacts
    rcases List.mem_cons.mp hc with rfl | hc
    · exact absurd hacts (Bool.eq_false_iff.mp (not_actsForUser.2 op hop))
    · rcases concept_cases hc with rfl | hmachine
      · exact absurd hacts (Bool.eq_false_iff.mp (not_actsForUser.1 op hop))
      · exact hmachine
  obtain ⟨S, m, part, rfl⟩ := hmachine
  refine ⟨fun heq => ?_, fun heq => ?_, fun input world b => ?_, fun input world => ?_⟩
  · rw [heq] at hacts
    exact absurd hacts (by decide)
  · rw [heq] at hacts
    exact absurd hacts (by decide)
  · rw [hperform]
    exact m.perform_unbroken part op.name input world b
  · rw [hperform]
    exact m.requests_perform part op.name input world

private theorem query_cases (happ : app.IsBuilt config) {concept name : String}
    {q : QueryHandle TravelWorld} (hq : app.engine.registry.query concept name = .ok q) :
    q.call = Requesting.query config.requesting name ∨ ∃ c ∈ concepts, q.call = c.query name := by
  obtain ⟨hconcept, hname, _⟩ := Registry.query_ok hq
  have hcall := happ.call_of_concept (happ.registered ▸ hconcept) (hname.symm ▸ hq)
  rw [happ.registered] at hconcept
  rcases List.mem_cons.mp hconcept with heq | hc
  · rw [heq] at hcall
    exact .inl hcall
  · exact .inr ⟨q.concept, hc, hcall⟩

private theorem asks (happ : app.IsBuilt config) {concept name : String}
    {q : QueryHandle TravelWorld} (hq : app.engine.registry.query concept name = .ok q)
    (hname : name ≠ "_awaitResponse") (input : Payload) : (q.call input).Asks fun _ => True := by
  rcases happ.query_cases hq with hcall | ⟨c, hc, hcall⟩
  · rw [hcall]
    by_cases hget : name = "_getResponse"
    · rw [hget]
      exact Requesting.asks_getResponse config.requesting input
    · unfold Requesting.query
      split
      · exact absurd rfl hname
      · exact absurd rfl hget
      · exact .fail _
  · rw [hcall]
    rcases concept_cases hc with rfl | ⟨S, m, part, rfl⟩
    · exact .fail _
    · exact m.asks_ask part name input

theorem perform_of_machine (happ : app.IsBuilt config) {S : Type} {m : Machine S}
    {part : Part State S} (hm : m.concept part ∈ concepts) {op : Operation}
    (hop : op ∈ m.operations) {act : String → Payload → S → Payload × S}
    (hact : m.action? op.name = some act) {id : ActionId}
    (hname : app.engine.registry.nameOf id = qualifiedName m.name op.name) (input : Payload)
    (world : TravelWorld) :
    app.engine.registry.perform id input world =
      (.ok (act world.nextId input (part.get world.state)).1,
        { world with
          issued := world.issued + 1
          state := part.set world.state (act world.nextId input (part.get world.state)).2 }) := by
  rw [happ.perform_of_concept (c := m.concept part) (List.mem_cons_of_mem _ hm) hop hname input]
  exact m.perform_eq part hact input world

theorem perform_of_act (happ : app.IsBuilt config) {S : Type} {m : Machine S}
    {part : Part State S} (hm : m.concept part ∈ concepts) {op : Operation}
    (hop : op ∈ m.operations) {act : String → Payload → S → Payload × S}
    (hact : m.action? op.name = some act) {id : ActionId}
    (hname : app.engine.registry.nameOf id = qualifiedName m.name op.name) {input : Payload}
    {world : TravelWorld} {output : Payload} {s : S}
    (hends : act world.nextId input (part.get world.state) = (output, s)) :
    app.engine.registry.perform id input world =
      (.ok output, { world with
        issued := world.issued + 1
        state := part.set world.state s }) := by
  rw [happ.perform_of_machine hm hop hact hname, hends]

theorem completes_of_machine (happ : app.IsBuilt config) {S : Type} {m : Machine S}
    {part : Part State S} (hm : m.concept part ∈ concepts) {op : Operation}
    (hop : op ∈ m.operations) {act : String → Payload → S → Payload × S}
    (hact : m.action? op.name = some act) :
    app.engine.registry.Completes (qualifiedName m.name op.name) := fun _ input world hname =>
  ⟨_, _, happ.perform_of_machine hm hop hact hname input world⟩

theorem operates (happ : app.IsBuilt config) : Operates app.engine.registry where
  background _ := happ.background
  asks _ _ _ hq hname := happ.asks hq hname
  responses q hq id world := by
    rw [happ.call_of_concept (c := Requesting.concept config.requesting) (List.mem_cons_self ..) hq]
    exact Requesting.getResponse_eq config.requesting id world

end App.IsBuilt

end Travel

end ConceptSync
