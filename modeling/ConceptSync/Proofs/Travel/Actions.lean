import ConceptSync.Travel.State

set_option autoImplicit false
set_option relaxedAutoImplicit false

/-!
What the actions on trips, itineraries and polls can do, told once for each machine: an action
declines and leaves everything as it is, or it makes the one change that its name says, of what is
there. What is proved of all actions of a machine needs no more than these cases.
-/

namespace ConceptSync

theorem Payload.isError_error (message : String) : (Payload.error message).isError = true := by
  simp [isError, error, single, Table.contains, Table.get?]

theorem Payload.isError_single {field : String} (h : field ≠ "error") (value : Value) :
    (Payload.single field value).isError = false := by
  simp [isError, single, Table.contains, Table.get?, h]

theorem Payload.text?_eq_some {p : Payload} {field s : String} :
    p.text? field = some s ↔ p.get? field = some (.string s) ∧ Text.isAllBlank s = false := by
  have hstring : p.string? field = some s ↔ p.get? field = some (.string s) := by
    unfold string?
    cases p.get? field with
    | none => simp
    | some value => cases value <;> simp [Value.asString?]
  simp [text?, Option.filter_eq_some_iff, hstring]

theorem Payload.text?_single {field s : String} (h : Text.isAllBlank s = false) :
    text? [(field, .string s)] field = some s :=
  text?_eq_some.mpr ⟨by simp [Table.get?], h⟩

theorem Payload.text?_single_blank {field s : String} (h : Text.isAllBlank s = true) :
    text? [(field, .string s)] field = none := by
  simp [text?, string?, Table.get?, Value.asString?, h]

namespace Travel

/-- How an action on trips ends. -/
inductive TripPlanning.Acts (id : String) (input : Payload) (trips : TripPlanning) :
    String → Payload × TripPlanning → Prop
  | declines {action : String} {output : Payload} : output.isError = true →
      Acts id input trips action (output, trips)
  | creates {owner name : String} : input.text? "owner" = some owner →
      input.text? "name" = some name →
      Acts id input trips "create" (.single "tripId" (.string id), trips.insert id
        { owner
          name
          destination := (input.get? "destination").getD .null
          dateRange := (input.get? "dateRange").getD .null
          participants := [owner] })
  | deletes {key : String} {trip : Trip} : input.text? "owner" = some trip.owner →
      input.text? "tripId" = some key → trips.get? key = some trip →
      Acts id input trips "delete" ([], trips.erase key)
  | joins {key participant : String} {trip : Trip} : input.text? "owner" = some trip.owner →
      input.text? "tripId" = some key → input.text? "participant" = some participant →
      trips.get? key = some trip → participant ∉ trip.participants →
      Acts id input trips "addParticipant"
        ([], trips.insert key { trip with participants := trip.participants ++ [participant] })

theorem TripPlanning.acts {action : String}
    {act : String → Payload → TripPlanning → Payload × TripPlanning}
    (hact : machine.action? action = some act) (id : String) (input : Payload)
    (trips : TripPlanning) : Acts id input trips action (act id input trips) := by
  unfold machine at hact
  simp only at hact
  split at hact <;> cases hact
  · unfold create
    split
    · exact .declines (Payload.isError_error _)
    · exact .declines (Payload.isError_error _)
    · next howner hname => exact .creates howner hname
  · unfold delete
    split
    · next howner hkey =>
      split
      · exact .declines (Payload.isError_error _)
      · next hthere =>
        split
        · next hsame => exact .deletes (hsame ▸ howner) hkey hthere
        · exact .declines (Payload.isError_error _)
    · exact .declines (Payload.isError_error _)
  · unfold addParticipant
    split
    · next howner hkey hparticipant =>
      split
      · exact .declines (Payload.isError_error _)
      · next hthere =>
        split
        · exact .declines (Payload.isError_error _)
        · next hsame =>
          split
          · exact .declines (Payload.isError_error _)
          · next hnew =>
            exact .joins (Decidable.not_not.mp hsame ▸ howner) hkey hparticipant hthere hnew
    · exact .declines (Payload.isError_error _)

namespace ItineraryPlanner

private theorem openItinerary_ok {s : ItineraryPlanner} {id : String} {it : Itinerary} :
    s.openItinerary id = .ok it ↔ s.itineraries.get? id = some it ∧ it.finalized = false := by
  unfold openItinerary
  cases s.itineraries.get? id with
  | none => simp
  | some found =>
    cases hfinal : found.finalized
    · simp only [hfinal, Bool.false_eq_true, if_false, Except.ok.injEq, Option.some.injEq]
      exact ⟨fun h => ⟨h, h ▸ hfinal⟩, And.left⟩
    · simp only [hfinal, if_true, reduceCtorEq, Option.some.injEq, false_iff, not_and]
      rintro rfl
      simp [hfinal]

/-- How an action on itineraries ends. -/
inductive Acts (id : String) (input : Payload) (s : ItineraryPlanner) :
    String → Payload × ItineraryPlanner → Prop
  | declines {action : String} {output : Payload} : output.isError = true →
      Acts id input s action (output, s)
  | finds {trip existing : String} {it : Itinerary} : input.text? "trip" = some trip →
      s.ofTrip? trip = some (existing, it) →
      Acts id input s "create" (.single "itinerary" (.string existing), s)
  | creates {trip : String} : input.text? "trip" = some trip → s.ofTrip? trip = none →
      Acts id input s "create" (.single "itinerary" (.string id),
        { s with itineraries := s.itineraries.insert id ⟨trip, false, []⟩ })
  | adds {itinerary name : String} {cost : Double} {it : Itinerary} :
      input.text? "itinerary" = some itinerary → s.itineraries.get? itinerary = some it →
      it.finalized = false →
      Acts id input s "addEvent" (.single "event" (.string id),
        { itineraries := s.itineraries.insert itinerary { it with events := it.events ++ [id] }
          events := s.events.insert id ⟨itinerary, name, cost, false, none⟩ })
  | approves {event : String} {e : Event} {it : Itinerary} {approved : Bool} :
      s.events.get? event = some e → s.itineraries.get? e.itinerary = some it →
      it.finalized = false →
      Acts id input s "approveEvent"
        ([], { s with events := s.events.insert event { e with approved } })
  | attaches {event poll : String} {e : Event} : input.text? "event" = some event →
      input.text? "poll" = some poll → s.events.get? event = some e →
      Acts id input s "attachPollToEvent"
        ([], { s with events := s.events.insert event { e with poll := some poll } })
  | finalizes {key : String} {it : Itinerary} : s.itineraries.get? key = some it →
      it.finalized = false →
      Acts id input s "finalizeItinerary"
        ([], { s with itineraries := s.itineraries.insert key { it with finalized := true } })

theorem acts {action : String}
    {act : String → Payload → ItineraryPlanner → Payload × ItineraryPlanner}
    (hact : machine.action? action = some act) (id : String) (input : Payload)
    (s : ItineraryPlanner) : Acts id input s action (act id input s) := by
  unfold machine at hact
  simp only at hact
  split at hact <;> cases hact
  · unfold create
    split
    · exact .declines (Payload.isError_error _)
    · next htrip =>
      split
      · next hfound => exact .finds htrip hfound
      · next hnone => exact .creates htrip hnone
  · unfold addEvent
    split
    · next hitinerary _ =>
      split
      · exact .declines (Payload.isError_error _)
      · split
        · exact .declines (Payload.isError_error _)
        · next hopen =>
          obtain ⟨hthere, hfinal⟩ := openItinerary_ok.mp hopen
          exact .adds hitinerary hthere hfinal
    · exact .declines (Payload.isError_error _)
  · unfold approveEvent
    split
    · simp only
      split
      · exact .declines (Payload.isError_error _)
      · next hopen =>
        obtain ⟨hthere, hfinal⟩ := openItinerary_ok.mp hopen
        split
        · next hevent =>
          obtain ⟨hevent, hsame⟩ := Option.filter_eq_some_iff.mp hevent
          exact .approves hevent (beq_iff_eq.mp hsame ▸ hthere) hfinal
        · exact .declines (Payload.isError_error _)
    · exact .declines (Payload.isError_error _)
  · unfold attachPollToEvent
    split
    · next hevent hpoll =>
      split
      · next hthere => exact .attaches hevent hpoll hthere
      · exact .declines (Payload.isError_error _)
    · exact .declines (Payload.isError_error _)
  · unfold finalizeItinerary
    split
    · exact .declines (Payload.isError_error _)
    · split
      · exact .declines (Payload.isError_error _)
      · next hopen =>
        obtain ⟨hthere, hfinal⟩ := openItinerary_ok.mp hopen
        exact .finalizes hthere hfinal

theorem addEvent_ok {id : String} {input : Payload} {s : ItineraryPlanner}
    (h : (addEvent id input s).1.isError = false) :
    ∃ itinerary name cost it, input.text? "itinerary" = some itinerary ∧
      s.itineraries.get? itinerary = some it ∧ it.finalized = false ∧
      addEvent id input s = (.single "event" (.string id),
        { itineraries := s.itineraries.insert itinerary { it with events := it.events ++ [id] }
          events := s.events.insert id ⟨itinerary, name, cost, false, none⟩ }) := by
  have hacts : Acts id input s "addEvent" (addEvent id input s) := acts rfl id input s
  generalize addEvent id input s = ended at h hacts ⊢
  generalize hname : "addEvent" = name at hacts
  cases hacts with
  | declines herror => cases herror.symm.trans h
  | adds hitinerary hthere hfinal => exact ⟨_, _, _, _, hitinerary, hthere, hfinal, rfl⟩
  | _ => exact absurd hname (by decide)

end ItineraryPlanner

namespace Polling

/-- How an action on polls ends. -/
inductive Acts (id : String) (input : Payload) (polls : Polling) :
    String → Payload × Polling → Prop
  | declines {action : String} {output : Payload} : output.isError = true →
      Acts id input polls action (output, polls)
  | creates {user name : String} : input.text? "user" = some user →
      input.text? "name" = some name →
      Acts id input polls "create"
        (.single "poll" (.string id), polls.insert id ⟨name, user, [], [], false⟩)
  | adds {user key label : String} {poll : Poll} : input.text? "actingUser" = some user →
      input.text? "poll" = some key → input.text? "label" = some label →
      polls.get? key = some poll → poll.creator = user → label ∉ poll.options →
      Acts id input polls "addOption"
        ([], polls.insert key { poll with options := poll.options ++ [label] })
  | votes {user key option : String} {poll : Poll} : input.text? "user" = some user →
      input.text? "poll" = some key → input.text? "option" = some option →
      polls.get? key = some poll → poll.closed = false → option ∈ poll.options →
      Acts id input polls "addVote"
        ([], polls.insert key { poll with votes := poll.votes.insert user option })
  | closes {key : String} {poll : Poll} : input.text? "actingUser" = some poll.creator →
      input.text? "poll" = some key → polls.get? key = some poll →
      Acts id input polls "close" ([], polls.insert key { poll with closed := true })

theorem acts {action : String} {act : String → Payload → Polling → Payload × Polling}
    (hact : machine.action? action = some act) (id : String) (input : Payload) (polls : Polling) :
    Acts id input polls action (act id input polls) := by
  unfold machine at hact
  simp only at hact
  split at hact <;> cases hact
  · unfold create
    split
    · next huser hname => exact .creates huser hname
    · exact .declines (Payload.isError_error _)
  · unfold addOption
    split
    · next huser hkey hlabel =>
      split
      · exact .declines (Payload.isError_error _)
      · next hthere =>
        split
        · exact .declines (Payload.isError_error _)
        · next hcreator =>
          split
          · exact .declines (Payload.isError_error _)
          · next hnew => exact .adds huser hkey hlabel hthere (Decidable.not_not.mp hcreator) hnew
    · exact .declines (Payload.isError_error _)
  · unfold addVote
    split
    · next huser hkey hoption =>
      split
      · exact .declines (Payload.isError_error _)
      · next hthere =>
        split
        · exact .declines (Payload.isError_error _)
        · next hopen =>
          split
          · next hlisted =>
            exact .votes huser hkey hoption hthere (Bool.eq_false_iff.mpr hopen) hlisted
          · exact .declines (Payload.isError_error _)
    · exact .declines (Payload.isError_error _)
  · unfold close
    split
    · next huser hkey =>
      split
      · exact .declines (Payload.isError_error _)
      · next hthere =>
        split
        · next hcreator => exact .closes (hcreator ▸ huser) hkey hthere
        · exact .declines (Payload.isError_error _)
    · exact .declines (Payload.isError_error _)

end Polling

end Travel

end ConceptSync
