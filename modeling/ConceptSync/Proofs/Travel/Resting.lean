import ConceptSync.Proofs.Store.Identifiers
import ConceptSync.Proofs.Travel.Operations

set_option autoImplicit false
set_option relaxedAutoImplicit false

/-!
What the concepts of the application can do to the world. Sessions and requests leave the state of
all others at rest, as queries do and all waiting; each of the other four changes its own part of
the state, by an action that is given the next identifier.
-/

namespace ConceptSync

namespace World

variable {κ : Type} {w w' : World κ}

def HasIssued (w : World κ) (id : String) : Prop :=
  ∃ n ≤ w.issued, id = (Uuid.issue .item n).text

theorem HasIssued.mono {id : String} (h : w.HasIssued id) (hle : w.issued ≤ w'.issued) :
    w'.HasIssued id := by
  obtain ⟨n, hn, hid⟩ := h
  exact ⟨n, Nat.le_trans hn hle, hid⟩

theorem hasIssued_nextId (h : w'.issued = w.issued + 1) : w'.HasIssued w.nextId :=
  ⟨_, Nat.le_of_eq h.symm, rfl⟩

theorem not_hasIssued_nextId (hsupply : w.issued + 1 < Uuid.supply) : ¬ w.HasIssued w.nextId := by
  rintro ⟨n, hn, heq⟩
  have := Uuid.issue_inj hsupply (by omega) (Uuid.text_injective heq)
  omega

end World

namespace Travel

/-- A world after something that concerns sessions, requests and clocks alone. -/
structure Rests (w w' : TravelWorld) : Prop where
  state : ∃ sessions, w'.state = { w.state with sessions }
  issued : w.issued ≤ w'.issued

namespace Rests

theorem refl (w : TravelWorld) : Rests w w := ⟨⟨_, rfl⟩, Nat.le_refl _⟩

private theorem trans {w w' w'' : TravelWorld} (h : Rests w w') (h' : Rests w' w'') :
    Rests w w'' := by
  obtain ⟨sessions, hstate⟩ := h.state
  obtain ⟨sessions', hstate'⟩ := h'.state
  exact ⟨⟨sessions', by rw [hstate', hstate]⟩, Nat.le_trans h.issued h'.issued⟩

end Rests

def AtRest {α : Type} (e : Effect TravelWorld α) : Prop := ∀ w, Rests w (e w).2

namespace AtRest

variable {α β : Type}

theorem pure (a : α) : AtRest (Pure.pure a) := fun w => .refl w

private theorem fail (failure : Failure) : AtRest (Effect.fail (α := α) failure) := fun w => .refl w

private theorem breakOff (b : Break) : AtRest (Effect.breakOff (α := α) b) := fun w => .refl w

private theorem bind {e : Effect TravelWorld α} {f : α → Effect TravelWorld β} (he : AtRest e)
    (hf : ∀ a, AtRest (f a)) : AtRest (e >>= f) := by
  intro w
  change Rests w (Effect.bind e f w).2
  have hfirst := he w
  unfold Effect.bind
  rcases hrun : e w with ⟨a | failure | b, after⟩ <;> rw [hrun] at hfirst
  · exact hfirst.trans (hf a after)
  · exact hfirst
  · exact hfirst

private theorem asks {e : Effect TravelWorld α} (h : e.Asks fun _ => True) : AtRest e := by
  intro w
  rcases h w with ⟨_, heq, _⟩ | ⟨_, heq⟩ <;> exact heq ▸ .refl w

private theorem freshId : AtRest World.freshId := fun _ => ⟨⟨_, rfl⟩, Nat.le_succ _⟩

private theorem wallTime : AtRest World.wallTime := fun _ => ⟨⟨_, rfl⟩, Nat.le_refl _⟩

private theorem onRequests (f : Nat → RequestTable → α × RequestTable) :
    AtRest (World.onRequests f) :=
  fun _ => ⟨⟨_, rfl⟩, Nat.le_refl _⟩

private theorem onSessions {f : State → α × State}
    (h : ∀ state, ∃ sessions, (f state).2 = { state with sessions }) : AtRest (World.onState f) :=
  fun w => ⟨h w.state, Nat.le_refl _⟩

private theorem waitUntil (time : Nat) : AtRest (World.waitUntil time) := by
  intro w
  unfold World.waitUntil
  cases w.clock.deadline with
  | none => exact ⟨⟨_, rfl⟩, Nat.le_refl _⟩
  | some limit => by_cases hlate : limit < time <;> simp only [hlate, if_true, if_false] <;>
      exact ⟨⟨_, rfl⟩, Nat.le_refl _⟩

theorem awaitResponse (timeout : Nat) (id : String) : AtRest (World.awaitResponse timeout id) := by
  refine .bind (.onRequests _) fun collected => ?_
  cases collected with
  | absent => exact .pure _
  | answer response => exact .pure _
  | pending deadline => exact .bind (.waitUntil _) fun _ => .onRequests _

theorem resolveSession (token : String) : AtRest (Sessions.resolve State.sessionsPart token) :=
  .bind .wallTime fun _ => .onSessions fun _ => ⟨_, rfl⟩

theorem createSession (input : Payload) : AtRest (Sessions.create State.sessionsPart input) := by
  unfold Sessions.create
  cases input.text? "user" with
  | none => exact .pure _
  | some user =>
    refine .bind .wallTime fun now => ?_
    cases Sessions.expiry? now input with
    | none => exact .breakOff _
    | some expiry => exact .bind .freshId fun _ => .onSessions fun _ => ⟨_, rfl⟩

private theorem performSession (action : String) (input : Payload) :
    AtRest (Sessions.perform State.sessionsPart action input) := by
  unfold Sessions.perform
  split
  · exact createSession input
  · unfold Sessions.validate
    cases input.text? "session" with
    | none => exact .pure _
    | some token =>
      exact .bind (resolveSession token) fun user => by cases user <;> exact .pure _
  · exact .onSessions fun _ => ⟨_, rfl⟩
  · exact .fail _

private theorem performRequesting (config : RequestingConfig) (action : String) (input : Payload) :
    AtRest (Requesting.perform config action input) := by
  unfold Requesting.perform
  split
  · unfold Requesting.request
    cases input.string? "path" with
    | none => exact .onRequests _
    | some path => exact .bind .freshId fun _ => .onRequests _
  · exact .onRequests _
  · exact .fail _

private theorem queryRequesting (config : RequestingConfig) (query : String) (input : Payload) :
    AtRest (Requesting.query config query input) := by
  unfold Requesting.query Requesting.about
  split
  · cases input.string? "request" with
    | none => exact .fail _
    | some id => exact .bind (.awaitResponse _ id) fun _ => .pure _
  · cases input.string? "request" with
    | none => exact .fail _
    | some id => exact .bind (.asks (.read fun _ => trivial)) fun _ => .pure _
  · exact .fail _

theorem query {requesting : RequestingConfig} {c : Concept TravelWorld}
    (hc : c ∈ Requesting.concept requesting :: concepts) (name : String) (input : Payload) :
    AtRest (c.query name input) := by
  simp only [concepts, List.mem_cons, List.not_mem_nil, or_false] at hc
  rcases hc with rfl | rfl | rfl | rfl | rfl | rfl
  · exact queryRequesting requesting name input
  · exact .fail _
  · exact .asks (Machine.asks_ask _ _ name input)
  · exact .asks (Machine.asks_ask _ _ name input)
  · exact .asks (Machine.asks_ask _ _ name input)
  · exact .asks (Machine.asks_ask _ _ name input)

end AtRest

/-- What performing an action of a concept's name does: nothing to trips, itineraries, polls and
costs, or one action of one of them. -/
inductive Does (concept action : String) (input : Payload) (w : TravelWorld) :
    Outcome Payload × TravelWorld → Prop
  | rests {outcome : Outcome Payload} {w' : TravelWorld} : Rests w w' →
      Does concept action input w (outcome, w')
  | trips {act : String → Payload → TripPlanning → Payload × TripPlanning} :
      concept = TripPlanning.machine.name → TripPlanning.machine.action? action = some act →
      Does concept action input w (.ok (act w.nextId input w.state.trips).1,
        { w with
          issued := w.issued + 1
          state := { w.state with trips := (act w.nextId input w.state.trips).2 } })
  | planner {act : String → Payload → ItineraryPlanner → Payload × ItineraryPlanner} :
      concept = ItineraryPlanner.machine.name →
      ItineraryPlanner.machine.action? action = some act →
      Does concept action input w (.ok (act w.nextId input w.state.planner).1,
        { w with
          issued := w.issued + 1
          state := { w.state with planner := (act w.nextId input w.state.planner).2 } })
  | polls {act : String → Payload → Polling → Payload × Polling} :
      concept = Polling.machine.name → Polling.machine.action? action = some act →
      Does concept action input w (.ok (act w.nextId input w.state.polls).1,
        { w with
          issued := w.issued + 1
          state := { w.state with polls := (act w.nextId input w.state.polls).2 } })
  | costs {act : String → Payload → CostSplitting → Payload × CostSplitting} :
      concept = CostSplitting.machine.name → CostSplitting.machine.action? action = some act →
      Does concept action input w (.ok (act w.nextId input w.state.costs).1,
        { w with
          issued := w.issued + 1
          state := { w.state with costs := (act w.nextId input w.state.costs).2 } })

namespace Does

variable {concept action : String} {input : Payload} {w : TravelWorld}

private theorem of_no_action {S : Type} {m : Machine S} {part : Part State S}
    (hnone : m.action? action = none) :
    Does concept action input w (m.perform part action input w) := by
  unfold Machine.perform
  rw [hnone]
  exact .rests (.refl w)

theorem of_concept {requesting : RequestingConfig} {c : Concept TravelWorld}
    (hc : c ∈ Requesting.concept requesting :: concepts) (action : String) (input : Payload)
    (w : TravelWorld) : Does c.name action input w (c.perform action input w) := by
  simp only [concepts, List.mem_cons, List.not_mem_nil, or_false] at hc
  rcases hc with rfl | rfl | rfl | rfl | rfl | rfl
  · exact .rests (AtRest.performRequesting requesting action input w)
  · exact .rests (AtRest.performSession action input w)
  · change Does _ action input w (TripPlanning.machine.perform State.tripsPart action input w)
    cases hact : TripPlanning.machine.action? action with
    | none => exact of_no_action hact
    | some act =>
      rw [TripPlanning.machine.perform_eq State.tripsPart hact input w]
      exact .trips rfl hact
  · change Does _ action input w
      (ItineraryPlanner.machine.perform State.plannerPart action input w)
    cases hact : ItineraryPlanner.machine.action? action with
    | none => exact of_no_action hact
    | some act =>
      rw [ItineraryPlanner.machine.perform_eq State.plannerPart hact input w]
      exact .planner rfl hact
  · change Does _ action input w (Polling.machine.perform State.pollsPart action input w)
    cases hact : Polling.machine.action? action with
    | none => exact of_no_action hact
    | some act =>
      rw [Polling.machine.perform_eq State.pollsPart hact input w]
      exact .polls rfl hact
  · change Does _ action input w (CostSplitting.machine.perform State.costsPart action input w)
    cases hact : CostSplitting.machine.action? action with
    | none => exact of_no_action hact
    | some act =>
      rw [CostSplitting.machine.perform_eq State.costsPart hact input w]
      exact .costs rfl hact

theorem issued_le {outcome : Outcome Payload} {w' : TravelWorld}
    (h : Does concept action input w (outcome, w')) : w.issued ≤ w'.issued := by
  cases h with
  | rests hrests => exact hrests.issued
  | trips _ _ => exact Nat.le_succ _
  | planner _ _ => exact Nat.le_succ _
  | polls _ _ => exact Nat.le_succ _
  | costs _ _ => exact Nat.le_succ _

end Does

namespace App.IsBuilt

variable {config : AppConfig} {app : App}

/-- An operation is performed by the concept that registered it, and one that nobody registered
changes nothing. -/
theorem perform_cases (happ : app.IsBuilt config) (id : ActionId) :
    (∃ failure, ∀ input, app.engine.registry.perform id input = .fail failure) ∨
      ∃ c ∈ Requesting.concept config.requesting :: concepts, ∃ op ∈ c.operations,
        app.engine.registry.nameOf id = qualifiedName c.name op.name ∧
        ∀ input, app.engine.registry.perform id input = c.perform op.name input := by
  cases hentry : app.engine.registry.entry? id with
  | none => exact .inl ⟨_, fun input => by rw [Registry.perform, hentry]⟩
  | some e =>
    have he := List.mem_of_getElem? hentry
    rw [happ.entries] at he
    obtain ⟨c, hc, he⟩ := List.mem_flatMap.mp he
    obtain ⟨op, hop, rfl⟩ := List.mem_map.mp he
    exact .inr ⟨c, hc, op, hop, by simp [Registry.nameOf, hentry],
      fun input => by rw [Registry.perform, hentry]⟩

end App.IsBuilt

end Travel

end ConceptSync
