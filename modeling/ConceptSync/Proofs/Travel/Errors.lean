import ConceptSync.Proofs.Travel.Actions
import ConceptSync.Proofs.Travel.Operations

set_option autoImplicit false
set_option relaxedAutoImplicit false

/-!
What actions do when they decline: one that answers with an error, or fails, leaves the open
requests and the state of every concept as they were. At most it read the clock and drew an
identifier that nothing bears.
-/

namespace ConceptSync

/-- A computation that failed, or that answered with an error. -/
def Outcome.Declines : Outcome Payload → Prop
  | .ok output => output.isError = true
  | .failed _ => True
  | .broken _ => False

def Effect.Careful {κ : Type} (e : Effect (World κ) Payload) : Prop :=
  ∀ world, (e world).1.Declines →
    (e world).2.requests = world.requests ∧ (e world).2.state = world.state

namespace Effect.Careful

variable {κ : Type}

private theorem pure (output : Payload) : (Pure.pure output : Effect (World κ) Payload).Careful :=
  fun _ _ => ⟨rfl, rfl⟩

private theorem fail (failure : Failure) :
    (Effect.fail failure : Effect (World κ) Payload).Careful :=
  fun _ _ => ⟨rfl, rfl⟩

private theorem after {α : Type} {e : Effect (World κ) α} {f : α → Effect (World κ) Payload}
    (he : ∀ world, (e world).2.requests = world.requests ∧ (e world).2.state = world.state)
    (hf : ∀ a, (f a).Careful) : (e >>= f).Careful := by
  intro world
  change (Effect.bind e f world).1.Declines → _ ∧ _
  change _ → (Effect.bind e f world).2.requests = _ ∧ (Effect.bind e f world).2.state = _
  have hfirst := he world
  unfold Effect.bind
  rcases hrun : e world with ⟨a | failure | broken, next⟩ <;> rw [hrun] at hfirst
  · intro hdeclines
    have hlater := hf a next hdeclines
    exact ⟨hlater.1.trans hfirst.1, hlater.2.trans hfirst.2⟩
  · exact fun _ => hfirst
  · exact fun _ => hfirst

end Effect.Careful

def Keeps {S : Type} (before : S) (r : Payload × S) : Prop := r.1.isError = true → r.2 = before

namespace Keeps

variable {S : Type} {before : S}

private theorem same (output : Payload) : Keeps before (output, before) := fun _ => rfl

private theorem single {field : String} (herror : field ≠ "error") (value : Value) (after : S) :
    Keeps before (.single field value, after) := by
  intro h
  rw [Payload.isError_single herror] at h
  cases h

private theorem nil (after : S) : Keeps before (([] : Payload), after) := nofun

end Keeps

def Machine.Careful {S : Type} (m : Machine S) : Prop :=
  ∀ name act, m.action? name = some act → ∀ id input s, Keeps s (act id input s)

private theorem Machine.Careful.perform {κ S : Type} {m : Machine S} (h : m.Careful)
    (part : Part κ S) (hpart : ∀ state, part.set state (part.get state) = state) (action : String)
    (input : Payload) : (m.perform part action input).Careful := by
  intro world hdeclines
  cases hact : m.action? action with
  | none =>
    simp only [Machine.perform, hact]
    exact ⟨rfl, rfl⟩
  | some act =>
    rw [m.perform_eq part hact] at hdeclines ⊢
    have hkept := h action act hact world.nextId input (part.get world.state) hdeclines
    exact ⟨rfl, by rw [hkept, hpart]⟩

private theorem Effect.Careful.onRequests {κ : Type}
    {f : Nat → RequestTable → Payload × RequestTable}
    (hf : ∀ now t, Keeps t (f now t)) : (World.onRequests (κ := κ) f).Careful :=
  fun world hdeclines => ⟨hf world.clock.now world.requests hdeclines, rfl⟩

namespace RequestTable

private theorem keeps_request (t : RequestTable) (timeout now : Nat) (id : String)
    (input : Payload) :
    Keeps t (t.request timeout now id input) := by
  unfold request
  split
  · exact .same _
  · exact .single (by decide) _ _

private theorem keeps_respond (t : RequestTable) (input : Payload) : Keeps t (t.respond input) := by
  unfold respond
  split
  · exact .same _
  · split
    · exact .same _
    · split
      · exact .same _
      · exact .single (by decide) _ _

end RequestTable

private theorem Requesting.careful {κ : Type} (config : RequestingConfig) (action : String)
    (input : Payload) : (perform (κ := κ) config action input).Careful := by
  unfold perform
  split
  · unfold request
    split
    · exact .onRequests fun now t => t.keeps_request config.timeout now "" input
    · exact .after (fun _ => ⟨rfl, rfl⟩) fun id =>
        .onRequests fun now t => t.keeps_request config.timeout now id input
  · exact .onRequests fun _ t => t.keeps_respond input
  · exact .fail _

namespace Travel

namespace Sessions

variable {κ : Type} (part : Part κ Sessions)

private theorem careful_create (input : Payload) : (create part input).Careful := by
  unfold create
  split
  · exact .pure _
  · refine .after (fun _ => ⟨rfl, rfl⟩) fun now => ?_
    split
    · exact nofun
    · exact .after (fun _ => ⟨rfl, rfl⟩) fun token => nofun

private theorem careful_validate (input : Payload) : (validate part input).Careful := by
  intro world
  unfold validate
  cases input.text? "session" with
  | none => exact nofun
  | some token =>
    obtain ⟨user, after, hresolved⟩ :
        ∃ user after, resolve part token world = (.ok user, after) := ⟨_, _, rfl⟩
    simp only
    rw [Effect.bind_of_ok hresolved]
    cases user <;> exact nofun

private theorem careful (action : String) (input : Payload) :
    (perform part action input).Careful := by
  unfold perform
  split
  · exact careful_create part input
  · exact careful_validate part input
  · exact nofun
  · exact .fail _

end Sessions

private theorem TripPlanning.careful : TripPlanning.machine.Careful := by
  intro name act hact id input trips
  have hacts := acts hact id input trips
  generalize act id input trips = ended at hacts ⊢
  cases hacts with
  | declines _ => exact .same _
  | creates _ _ => exact .single (by decide) _ _
  | deletes _ _ _ => exact .nil _
  | joins _ _ _ _ _ => exact .nil _

private theorem ItineraryPlanner.careful : ItineraryPlanner.machine.Careful := by
  intro name act hact id input s
  have hacts := acts hact id input s
  generalize act id input s = ended at hacts ⊢
  cases hacts with
  | declines _ => exact .same _
  | finds _ _ => exact .same _
  | creates _ _ => exact .single (by decide) _ _
  | adds _ _ _ => exact .single (by decide) _ _
  | approves _ _ _ => exact .nil _
  | attaches _ _ _ => exact .nil _
  | finalizes _ _ => exact .nil _

private theorem Polling.careful : Polling.machine.Careful := by
  intro name act hact id input polls
  have hacts := acts hact id input polls
  generalize act id input polls = ended at hacts ⊢
  cases hacts with
  | declines _ => exact .same _
  | creates _ _ => exact .single (by decide) _ _
  | adds _ _ _ _ _ _ => exact .nil _
  | votes _ _ _ _ _ _ => exact .nil _
  | closes _ _ _ => exact .nil _

private theorem CostSplitting.careful : CostSplitting.machine.Careful := by
  intro name act hact id input expenses
  simp only [machine] at hact
  split at hact <;> cases hact
  · unfold create
    repeat' split
    all_goals first | exact .same _ | exact .single (by decide) _ _
  · unfold remove
    repeat' split
    all_goals first | exact .same _ | exact .nil _
  · unfold addContribution
    repeat' split
    all_goals first | exact .same _ | exact .nil _

/-- The concepts of the application decline without a trace: where an action of any name answers an
input with an error, or fails, the open requests and the state of all concepts are as they were. -/
theorem kept_of_declined {config : RequestingConfig} {c : Concept TravelWorld}
    (hc : c ∈ Requesting.concept config :: concepts) (action : String) (input : Payload)
    (world : TravelWorld) (hdeclines : (c.perform action input world).1.Declines) :
    (c.perform action input world).2.requests = world.requests ∧
      (c.perform action input world).2.state = world.state := by
  simp only [concepts, List.mem_cons, List.not_mem_nil, or_false] at hc
  rcases hc with rfl | rfl | rfl | rfl | rfl | rfl
  · exact Requesting.careful config action input world hdeclines
  · exact Sessions.careful State.sessionsPart action input world hdeclines
  · exact TripPlanning.careful.perform State.tripsPart (fun _ => rfl) action input world hdeclines
  · exact ItineraryPlanner.careful.perform State.plannerPart (fun _ => rfl) action input world
      hdeclines
  · exact Polling.careful.perform State.pollsPart (fun _ => rfl) action input world hdeclines
  · exact CostSplitting.careful.perform State.costsPart (fun _ => rfl) action input world hdeclines

def pollClosed : TravelWorld :=
  .start 0 { State.empty with polls := [("dinner", ⟨"Where?", "ann", ["at home"], [], true⟩)] }

def voteAtHome : Payload :=
  .ofList [("option", .string "at home"), ("poll", .string "dinner"), ("user", .string "bob")]

/-- A vote that a closed poll declines leaves no trace. -/
theorem kept_of_declined_vote :
    ((Polling.machine.concept State.pollsPart).perform "addVote" voteAtHome pollClosed).1.Declines ∧
      ((Polling.machine.concept State.pollsPart).perform "addVote" voteAtHome
          pollClosed).2.requests = pollClosed.requests ∧
        ((Polling.machine.concept State.pollsPart).perform "addVote" voteAtHome
          pollClosed).2.state = pollClosed.state := by
  have hdeclines : ((Polling.machine.concept State.pollsPart).perform "addVote" voteAtHome
      pollClosed).1.Declines := by
    change Payload.isError (Polling.addVote pollClosed.nextId voteAtHome pollClosed.state.polls).1 = true
    decide +kernel
  have hpolling : Polling.machine.concept State.pollsPart ∈ Requesting.concept {} :: concepts :=
    List.mem_cons_of_mem _ (by simp [concepts])
  exact ⟨hdeclines, kept_of_declined hpolling "addVote" voteAtHome pollClosed hdeclines⟩

end Travel

end ConceptSync
