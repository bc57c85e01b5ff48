import ConceptSync.Proofs.Travel.Finality
import ConceptSync.Proofs.Travel.Identity
import ConceptSync.Proofs.Travel.Reaching

set_option autoImplicit false
set_option relaxedAutoImplicit false

/-!
Finalized itineraries and closed polls. Whatever is stored is stored under an identifier that was
issued, so nothing new takes the place of anything; a sequence of calls keeps what is final exactly
if nothing final is changed by the two actions that do not look whether they may.
-/

namespace ConceptSync

namespace Travel

structure Shelved (w : TravelWorld) : Prop where
  planner : w.state.planner.Shelved w.HasIssued
  polls : Polling.Shelved w.HasIssued w.state.polls

private theorem Does.shelved {concept action : String} {input : Payload} {w w' : TravelWorld}
    {outcome : Outcome Payload} (h : Does concept action input w (outcome, w'))
    (hshelved : Shelved w) (hsupply : w'.issued < Uuid.supply) : Shelved w' := by
  have hknown : ∀ key, w.HasIssued key → w'.HasIssued key := fun key hkey => hkey.mono h.issued_le
  have hthen : w.state.planner.Shelved w'.HasIssued := hshelved.planner.mono hknown
  have hthen' : Polling.Shelved w'.HasIssued w.state.polls := fun key poll hthere =>
    hknown key (hshelved.polls key poll hthere)
  cases h with
  | rests hrests =>
    obtain ⟨sessions, hstate⟩ := hrests.state
    exact ⟨by rw [hstate]; exact hthen, by rw [hstate]; exact hthen'⟩
  | trips _ _ => exact ⟨hthen, hthen'⟩
  | planner _ hact =>
    exact ⟨(ItineraryPlanner.acts hact w.nextId input w.state.planner).shelved hshelved.planner
      hknown (World.hasIssued_nextId rfl) (World.not_hasIssued_nextId hsupply), hthen'⟩
  | polls _ hact =>
    exact ⟨hthen, (Polling.acts hact w.nextId input w.state.polls).shelved hshelved.polls hknown
      (World.hasIssued_nextId rfl)⟩
  | costs _ _ => exact ⟨hthen, hthen'⟩

private theorem App.Reachable.shelved {config : AppConfig} {app : App} {stage : AppStage}
    (happ : app.IsBuilt config) (h : app.Reachable stage)
    (hsupply : stage.world.issued < Uuid.supply) : Shelved stage.world := by
  refine h.world_of_kept happ (P := fun w => w.issued < Uuid.supply → Shelved w)
    (fun wall _ => ?_) (fun c hc action input w hshelved hlater => ?_)
    (fun w w' hrests hshelved hlater => ?_) hsupply
  · exact ⟨⟨nofun, nofun, nofun⟩, nofun⟩
  · have hdoes := Does.of_concept hc action input w
    exact hdoes.shelved (hshelved (Nat.lt_of_le_of_lt hdoes.issued_le hlater)) hlater
  · have hdoes : Does "" "" [] w (.broken .elapsed, w') := .rests hrests
    exact hdoes.shelved (hshelved (Nat.lt_of_le_of_lt hrests.issued hlater)) hlater

structure State.KeepsTerminal (s s' : State) : Prop where
  planner : s.planner.KeepsFinal s'.planner
  polls : Polling.KeepsClosed s.polls s'.polls

namespace State.KeepsTerminal

variable {s s' s'' : State}

private theorem refl (s : State) : KeepsTerminal s s := ⟨.refl _, .refl _⟩

private theorem trans (h : KeepsTerminal s s') (h' : KeepsTerminal s' s'') : KeepsTerminal s s'' :=
  ⟨h.planner.trans h'.planner, h.polls.trans h'.polls⟩

end State.KeepsTerminal

/-- A call of an action of some concept. -/
structure Call where
  concept : Concept TravelWorld
  action : String
  input : Payload

def afterCalls (calls : List Call) (w : TravelWorld) : TravelWorld :=
  calls.foldl (fun w call => (call.concept.perform call.action call.input w).2) w

namespace Call

/-- A call that changes what is terminal: it attaches another poll to an event of a finalized
itinerary, or it adds an option to a closed poll. -/
inductive Tampers (call : Call) (w : TravelWorld) : Prop
  | attaches {event poll : String} {e : Event} :
      call.concept.name = "ItineraryPlanner" → call.action = "attachPollToEvent" →
      call.input.text? "event" = some event → call.input.text? "poll" = some poll →
      w.state.planner.events.get? event = some e → w.state.planner.Final e.itinerary →
      e.poll ≠ some poll → Tampers call w
  | adds {user key label : String} {poll : Poll} :
      call.concept.name = "Polling" → call.action = "addOption" →
      call.input.text? "actingUser" = some user → call.input.text? "poll" = some key →
      call.input.text? "label" = some label → w.state.polls.get? key = some poll →
      poll.creator = user → label ∉ poll.options → poll.closed = true → Tampers call w

variable {config : RequestingConfig} {call : Call} {w : TravelWorld}

private theorem keepsTerminal (hconcept : call.concept ∈ Requesting.concept config :: concepts)
    (hshelved : Shelved w)
    (hsupply : (call.concept.perform call.action call.input w).2.issued < Uuid.supply)
    (hcalm : ¬ call.Tampers w) :
    w.state.KeepsTerminal (call.concept.perform call.action call.input w).2.state := by
  have hdoes := Does.of_concept hconcept call.action call.input w
  generalize call.concept.perform call.action call.input w = ended at hdoes hsupply
  cases hdoes with
  | rests hrests =>
    obtain ⟨sessions, hstate⟩ := hrests.state
    rw [hstate]
    exact ⟨.refl _, .refl _⟩
  | trips _ _ => exact ⟨.refl _, .refl _⟩
  | planner hname hact =>
    refine ⟨(ItineraryPlanner.acts hact w.nextId call.input w.state.planner).keepsFinal
      hshelved.planner (World.not_hasIssued_nextId hsupply) ?_, .refl _⟩
    intro event poll e haction hevent hpoll hthere hfinal
    exact not_not.mp fun hother =>
      hcalm (.attaches hname haction hevent hpoll hthere hfinal hother)
  | polls hname hact =>
    refine ⟨.refl _, (Polling.acts hact w.nextId call.input w.state.polls).keepsClosed
      hshelved.polls (World.not_hasIssued_nextId hsupply) ?_⟩
    intro user key label poll haction huser hkey hlabel hthere hcreator hoption
    exact Bool.eq_false_iff.mpr fun hclosed =>
      hcalm (.adds hname haction huser hkey hlabel hthere hcreator hoption hclosed)
  | costs _ _ => exact ⟨.refl _, .refl _⟩

private theorem concept_of_name (hconcept : call.concept ∈ Requesting.concept config :: concepts) :
    (call.concept.name = "ItineraryPlanner" →
      call.concept = ItineraryPlanner.machine.concept State.plannerPart) ∧
    (call.concept.name = "Polling" → call.concept = Polling.machine.concept State.pollsPart) := by
  rcases List.mem_cons.mp hconcept with heq | hconcept
  · rw [heq]
    exact ⟨fun hname => absurd (show Requesting.name = _ from hname) (by decide),
      fun hname => absurd (show Requesting.name = _ from hname) (by decide)⟩
  · simp only [concepts, List.mem_cons, List.not_mem_nil, or_false] at hconcept
    rcases hconcept with heq | heq | heq | heq | heq <;> rw [heq] <;>
      exact ⟨fun hname => by first | rfl | exact absurd hname (by decide),
        fun hname => by first | rfl | exact absurd hname (by decide)⟩

private theorem Tampers.not_keepsTerminal
    (hconcept : call.concept ∈ Requesting.concept config :: concepts) (h : call.Tampers w) :
    ¬ w.state.KeepsTerminal (call.concept.perform call.action call.input w).2.state := by
  intro hkeeps
  cases h with
  | @attaches event poll e hname haction hevent hpoll hthere hfinal hother =>
    have hattached : (ItineraryPlanner.attachPollToEvent w.nextId call.input w.state.planner).2 =
        { w.state.planner with
          events := w.state.planner.events.insert event { e with poll := some poll } } := by
      simp [ItineraryPlanner.attachPollToEvent, hevent, hpoll, hthere]
    have hstays := (hkeeps.planner.belonging event e hfinal).mpr hthere
    rw [(concept_of_name hconcept).1 hname, haction] at hstays
    change (ItineraryPlanner.attachPollToEvent w.nextId call.input
      w.state.planner).2.events.get? event = some e at hstays
    rw [hattached, Table.get?_insert_self] at hstays
    exact hother (congrArg Event.poll (Option.some.inj hstays)).symm
  | @adds user key label poll hname haction huser hkey hlabel hthere hcreator hnew hclosed =>
    have hadded : (Polling.addOption w.nextId call.input w.state.polls).2 =
        w.state.polls.insert key { poll with options := poll.options ++ [label] } := by
      simp [Polling.addOption, huser, hkey, hlabel, hthere, hcreator, hnew]
    obtain ⟨after, hafter, _, hoptions, _⟩ := hkeeps.polls key poll hthere hclosed
    rw [(concept_of_name hconcept).2 hname, haction] at hafter
    change (Polling.addOption w.nextId call.input w.state.polls).2.get? key = some after at hafter
    rw [hadded, Table.get?_insert_self] at hafter
    cases hafter
    exact absurd hoptions (by simp)

end Call

section Calls

variable {config : RequestingConfig} {calls later : List Call} {w : TravelWorld}

private theorem afterCalls_append (calls later : List Call) (w : TravelWorld) :
    afterCalls (calls ++ later) w = afterCalls later (afterCalls calls w) :=
  List.foldl_append

private theorem issued_afterCalls
    (hcalls : ∀ call ∈ calls, call.concept ∈ Requesting.concept config :: concepts)
    (w : TravelWorld) : w.issued ≤ (afterCalls calls w).issued := by
  induction calls generalizing w with
  | nil => exact Nat.le_refl _
  | cons call rest ih =>
    obtain ⟨hcall, hrest⟩ := List.forall_mem_cons.mp hcalls
    exact Nat.le_trans (Does.of_concept hcall call.action call.input w).issued_le (ih hrest _)

private theorem supply_of_append
    (hcalls : ∀ call ∈ calls ++ later, call.concept ∈ Requesting.concept config :: concepts)
    (hsupply : (afterCalls (calls ++ later) w).issued < Uuid.supply) :
    (afterCalls calls w).issued < Uuid.supply := by
  rw [afterCalls_append] at hsupply
  exact Nat.lt_of_le_of_lt
    (issued_afterCalls (fun call hcall => hcalls call (List.mem_append_right _ hcall)) _) hsupply

private theorem Shelved.afterCalls
    (hcalls : ∀ call ∈ calls, call.concept ∈ Requesting.concept config :: concepts)
    (h : Shelved w) (hsupply : (afterCalls calls w).issued < Uuid.supply) :
    Shelved (afterCalls calls w) := by
  induction calls generalizing w with
  | nil => exact h
  | cons call rest ih =>
    obtain ⟨hcall, hrest⟩ := List.forall_mem_cons.mp hcalls
    exact ih hrest ((Does.of_concept hcall call.action call.input w).shelved h
      (Nat.lt_of_le_of_lt (issued_afterCalls hrest _) hsupply)) hsupply

private theorem keepsTerminal_afterCalls
    (hcalls : ∀ call ∈ calls, call.concept ∈ Requesting.concept config :: concepts)
    (hshelved : Shelved w) (hsupply : (afterCalls calls w).issued < Uuid.supply)
    (hcalm : ∀ before call after, calls = before ++ call :: after →
      ¬ call.Tampers (afterCalls before w)) :
    w.state.KeepsTerminal (afterCalls calls w).state := by
  induction calls generalizing w with
  | nil => exact .refl _
  | cons call rest ih =>
    obtain ⟨hcall, hrest⟩ := List.forall_mem_cons.mp hcalls
    have hfirst : (call.concept.perform call.action call.input w).2.issued < Uuid.supply :=
      Nat.lt_of_le_of_lt (issued_afterCalls hrest _) hsupply
    have hstep := Call.keepsTerminal hcall hshelved hfirst (hcalm [] call rest rfl)
    refine hstep.trans (ih hrest ((Does.of_concept hcall _ _ w).shelved hshelved hfirst) hsupply
      fun before later after heq => ?_)
    exact hcalm (call :: before) later after (by rw [heq]; rfl)

end Calls

/-- From any moment of a sequence of calls to any later one, what is terminal stays as it is. -/
def StaysTerminal (calls : List Call) (w : TravelWorld) : Prop :=
  ∀ before middle after, calls = before ++ middle ++ after →
    (afterCalls before w).state.KeepsTerminal (afterCalls (before ++ middle) w).state

private theorem StaysTerminal.not_tampers {config : RequestingConfig} {before after : List Call}
    {call : Call} {w : TravelWorld} (hstays : StaysTerminal (before ++ call :: after) w)
    (hcall : call.concept ∈ Requesting.concept config :: concepts) :
    ¬ call.Tampers (afterCalls before w) := by
  intro htampers
  have hkeeps := hstays before [call] after (by simp)
  rw [afterCalls_append] at hkeeps
  exact htampers.not_keepsTerminal hcall hkeeps

namespace App

variable {config : AppConfig} {app : App} {stage : AppStage}

/-- From every reachable state on, whatever actions are called with whatever inputs, finalized
itineraries and closed polls stay as they are exactly if no call attaches another poll to an event of
a finalized itinerary and none adds an option to a closed poll. -/
theorem staysTerminal_iff (hbuild : build config = .ok app) (hreach : app.Reachable stage)
    {calls : List Call}
    (hcalls : ∀ call ∈ calls, call.concept ∈ Requesting.concept config.requesting :: concepts)
    (hsupply : (afterCalls calls stage.world).issued < Uuid.supply) :
    StaysTerminal calls stage.world ↔ ∀ before call after, calls = before ++ call :: after →
      ¬ call.Tampers (afterCalls before stage.world) := by
  constructor
  · rintro hstays before call after rfl
    exact hstays.not_tampers (hcalls call (by simp))
  · rintro hcalm before middle after rfl
    obtain ⟨hfirst, hafter⟩ := List.forall_mem_append.mp hcalls
    obtain ⟨hbefore, hmiddle⟩ := List.forall_mem_append.mp hfirst
    have hthen := supply_of_append hcalls hsupply
    have hnow := supply_of_append hfirst hthen
    have hshelved := hreach.shelved (isBuilt hbuild)
      (Nat.lt_of_le_of_lt (issued_afterCalls hbefore _) hnow)
    rw [afterCalls_append] at hthen ⊢
    refine keepsTerminal_afterCalls hmiddle (hshelved.afterCalls hbefore hnow) hthen
      fun first call rest heq => ?_
    rw [← afterCalls_append]
    exact hcalm (before ++ first) call (rest ++ after) (by simp [heq])

private def finalizing : List Call :=
  let planner := ItineraryPlanner.machine.concept State.plannerPart
  let itinerary : Value := .string (Uuid.issue .item 1).text
  [⟨planner, "create", .single "trip" (.string "rome")⟩,
    ⟨planner, "addEvent",
      .ofList [("itinerary", itinerary), ("name", .string "Museum"), ("cost", .ofInt 45)]⟩,
    ⟨planner, "finalizeItinerary", .single "itinerary" itinerary⟩]

private def disapproving : Call :=
  ⟨ItineraryPlanner.machine.concept State.plannerPart, "approveEvent",
    .ofList [("itinerary", .string (Uuid.issue .item 1).text),
      ("event", .string (Uuid.issue .item 2).text), ("approved", .bool false)]⟩

private def closing : List Call :=
  let polling := Polling.machine.concept State.pollsPart
  [⟨polling, "create", .ofList [("user", .string "ann"), ("name", .string "dinner")]⟩,
    ⟨polling, "close", .ofList [("actingUser", .string "ann"),
      ("poll", .string (Uuid.issue .item 1).text)]⟩]

/-- An approval that comes too late changes nothing. -/
theorem staysTerminal_disapproving :
    ∃ app, build {} = .ok app ∧ app.Reachable (.start 0) ∧
      StaysTerminal (finalizing ++ [disapproving]) (AppStage.start 0).world := by
  obtain ⟨app, hbuild⟩ := build_default
  refine ⟨app, hbuild, .start 0, (staysTerminal_iff hbuild (.start 0) ?_ ?_).mpr ?_⟩
  · simp [finalizing, disapproving, concepts]
  · decide +kernel
  · intro before call after heq htampers
    have hactions : ∀ call ∈ finalizing ++ [disapproving],
        call.action ≠ "attachPollToEvent" ∧ call.action ≠ "addOption" := by decide
    have hcall := hactions call (by simp [heq])
    cases htampers with
    | attaches _ haction => exact hcall.1 haction
    | adds _ haction => exact hcall.2 haction

private def attachingLate : Call :=
  ⟨ItineraryPlanner.machine.concept State.plannerPart, "attachPollToEvent",
    .ofList [("event", .string (Uuid.issue .item 2).text), ("poll", .string "late")]⟩

private def addingLate : Call :=
  ⟨Polling.machine.concept State.pollsPart, "addOption",
    .ofList [("actingUser", .string "ann"), ("poll", .string (Uuid.issue .item 1).text),
      ("label", .string "at home")]⟩

private theorem tampers_attachingLate :
    attachingLate.Tampers (afterCalls finalizing (AppStage.start 0).world) := by
  have hevent : ((afterCalls finalizing (AppStage.start 0).world).state.planner.events.get?
      (Uuid.issue .item 2).text).map (fun e => (e.itinerary, e.poll)) =
        some ((Uuid.issue .item 1).text, none) := by decide +kernel
  have hfinal : ((afterCalls finalizing (AppStage.start 0).world).state.planner.itineraries.get?
      (Uuid.issue .item 1).text).map Itinerary.finalized = some true := by decide +kernel
  obtain ⟨e, hthere, he⟩ := Option.map_eq_some_iff.mp hevent
  obtain ⟨it, hit, hfinalized⟩ := Option.map_eq_some_iff.mp hfinal
  obtain ⟨hitinerary, hpoll⟩ := Prod.mk.inj he
  have hlate : attachingLate.input.text? "poll" = some "late" := by decide +kernel
  exact .attaches rfl rfl (by decide +kernel) hlate hthere
    (hitinerary ▸ ⟨it, hit, hfinalized⟩) (by simp [hpoll])

private theorem tampers_addingLate :
    addingLate.Tampers (afterCalls closing (AppStage.start 0).world) := by
  have hpoll : ((afterCalls closing (AppStage.start 0).world).state.polls.get?
      (Uuid.issue .item 1).text).map (fun poll => (poll.creator, poll.options, poll.closed)) =
        some ("ann", [], true) := by decide +kernel
  obtain ⟨poll, hthere, hpoll⟩ := Option.map_eq_some_iff.mp hpoll
  simp only [Prod.mk.injEq] at hpoll
  obtain ⟨hcreator, hoptions, hclosed⟩ := hpoll
  have huser : addingLate.input.text? "actingUser" = some "ann" := by decide +kernel
  have hlabel : addingLate.input.text? "label" = some "at home" := by decide +kernel
  exact .adds rfl rfl huser (by decide +kernel) hlabel hthere hcreator (by simp [hoptions]) hclosed

/-- A poll is attached to an event after its itinerary was finalized, and an option is added to a
poll after it was closed. -/
theorem not_staysTerminal_late :
    ∃ app, build {} = .ok app ∧ app.Reachable (.start 0) ∧
      ¬ StaysTerminal (finalizing ++ [attachingLate]) (AppStage.start 0).world ∧
      ¬ StaysTerminal (closing ++ [addingLate]) (AppStage.start 0).world := by
  obtain ⟨app, hbuild⟩ := build_default
  have hplanner : attachingLate.concept ∈ Requesting.concept {} :: concepts := by
    simp [attachingLate, concepts]
  have hpolling : addingLate.concept ∈ Requesting.concept {} :: concepts := by
    simp [addingLate, concepts]
  exact ⟨app, hbuild, .start 0, fun hstays => hstays.not_tampers hplanner tampers_attachingLate,
    fun hstays => hstays.not_tampers hpolling tampers_addingLate⟩

end App

end Travel

end ConceptSync
