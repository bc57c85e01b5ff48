import Mathlib.Data.List.Nodup
import ConceptSync.Proofs.Machine
import ConceptSync.Proofs.Travel.Lookups

set_option autoImplicit false
set_option relaxedAutoImplicit false

/-!
Itineraries and events refer to each other. Through all actions an itinerary lists the events that
name it, in the order in which they were created, so that asking for the events of an itinerary
leaves none out.
-/

namespace ConceptSync

namespace Travel

private theorem Event.field?_approved_document (id : String) (e : Event) :
    (e.document id).field? "approved" = some (.bool e.approved) := by
  simp only [document, Value.field?]
  cases e.poll <;> simp [Table.ofList, Table.get?_insert]

def saysApproved (document : Value) : Bool :=
  ((document.field? "approved").bind Value.asBool?).getD false

namespace ItineraryPlanner

variable {s s' : ItineraryPlanner} {id action : String} {input output : Payload}

def told? (output : Payload) : Option String :=
  if output.isError then none else output.string? "event"

def created? (s : ItineraryPlanner) (call : Machine.Call) : Option String :=
  (machine.answer? s call).bind told?

def created (s : ItineraryPlanner) : List Machine.Call → List String
  | [] => []
  | call :: rest => (s.created? call).toList ++ created (machine.after s call) rest

def isOf (events : Table String Event) (key event : String) : Bool :=
  (events.get? event).any fun e => e.itinerary == key

private theorem isOf_iff {events : Table String Event} {key event : String} :
    isOf events key event = true ↔ ∃ e, events.get? event = some e ∧ e.itinerary = key := by
  simp [isOf, Option.any_eq_true]

private theorem isOf_insert (events : Table String Event) (event : String) (e : Event)
    (key other : String) : isOf (events.insert event e) key other =
      if event = other then e.itinerary == key else isOf events key other := by
  simp only [isOf, Table.get?_insert]
  split <;> rfl

private theorem isOf_change {event : String} {e changed : Event}
    (hthere : s.events.get? event = some e)
    (hsame : changed.itinerary = e.itinerary) (key : String) :
    isOf (s.events.insert event changed) key = isOf s.events key := by
  funext other
  rw [isOf_insert]
  split
  · next heq =>
    subst heq
    simp [isOf, hthere, hsame]
  · rfl

/-- How itineraries and events refer to each other, after some identifiers were used and some events
created. -/
structure Referenced (s : ItineraryPlanner) (ids log : List String) : Prop where
  sorted : s.itineraries.Sorted
  used : ∀ key it, s.itineraries.get? key = some it → key ∈ ids
  sublist : log.Sublist ids
  trips : ∀ key key' it it', s.itineraries.get? key = some it → s.itineraries.get? key' = some it' →
    it.trip = it'.trip → key = key'
  stored : ∀ event e, s.events.get? event = some e →
    event ∈ log ∧ ∃ it, s.itineraries.get? e.itinerary = some it
  lists : ∀ key it, s.itineraries.get? key = some it → it.events = log.filter (isOf s.events key)

namespace Referenced

variable {ids log : List String}

private theorem start : Referenced .empty [] [] where
  sorted := .nil
  used := nofun
  sublist := .slnil
  trips := nofun
  stored := nofun
  lists := nofun

private theorem unused (h : s.Referenced ids log) (id : String) :
    s.Referenced (ids ++ [id]) log where
  sorted := h.sorted
  used key it hthere := List.mem_append_left _ (h.used key it hthere)
  sublist := h.sublist.trans (List.sublist_append_left ids [id])
  trips := h.trips
  stored := h.stored
  lists := h.lists

private theorem change (h : s.Referenced ids log) {key : String} {it changed : Itinerary}
    (hthere : s.itineraries.get? key = some it) (htrip : changed.trip = it.trip)
    (hevents : changed.events = it.events) :
    Referenced { s with itineraries := s.itineraries.insert key changed } ids log := by
  have hold : ∀ other found, (s.itineraries.insert key changed).get? other = some found →
      ∃ it, s.itineraries.get? other = some it ∧ found.trip = it.trip ∧
        found.events = it.events := by
    intro other found hfound
    rcases Table.of_get?_insert hfound with ⟨rfl, rfl⟩ | ⟨_, hfound⟩
    · exact ⟨it, hthere, htrip, hevents⟩
    · exact ⟨found, hfound, rfl, rfl⟩
  refine ⟨h.sorted.insert _ _, ?_, h.sublist, ?_, ?_, ?_⟩
  · intro other found hfound
    obtain ⟨it, hit, _⟩ := hold other found hfound
    exact h.used other it hit
  · intro other other' found found' hfound hfound' heq
    obtain ⟨it, hit, hsame, _⟩ := hold other found hfound
    obtain ⟨it', hit', hsame', _⟩ := hold other' found' hfound'
    exact h.trips other other' it it' hit hit' (by rw [← hsame, ← hsame', heq])
  · intro event e he
    obtain ⟨hmem, it', hit'⟩ := h.stored event e he
    refine ⟨hmem, ?_⟩
    by_cases heq : key = e.itinerary
    · exact ⟨changed, by rw [Table.get?_insert, if_pos heq]⟩
    · exact ⟨it', by rw [Table.get?_insert, if_neg heq, hit']⟩
  · intro other found hfound
    obtain ⟨it, hit, _, hsame⟩ := hold other found hfound
    exact hsame.trans (h.lists other it hit)

private theorem changeEvent (h : s.Referenced ids log) {event : String} {e changed : Event}
    (hthere : s.events.get? event = some e) (hsame : changed.itinerary = e.itinerary) :
    Referenced { s with events := s.events.insert event changed } ids log := by
  refine ⟨h.sorted, h.used, h.sublist, h.trips, ?_, ?_⟩
  · intro other found hfound
    rcases Table.of_get?_insert hfound with ⟨rfl, rfl⟩ | ⟨_, hfound⟩
    · rw [hsame]
      exact h.stored event e hthere
    · exact h.stored other found hfound
  · intro key it hit
    rw [isOf_change hthere hsame]
    exact h.lists key it hit

private theorem creation (h : s.Referenced ids log) (hnew : id ∉ ids) {trip : String}
    (hnone : s.ofTrip? trip = none) :
    Referenced { s with itineraries := s.itineraries.insert id ⟨trip, false, []⟩ } (ids ++ [id])
      log := by
  have hother : ∀ key it, s.itineraries.get? key = some it → it.trip ≠ trip := by
    intro key it hthere htrip
    exact List.find?_eq_none.mp hnone _ (Table.mem_of_get? hthere) (beq_iff_eq.mpr htrip)
  have hunnamed : ∀ event e, s.events.get? event = some e → id ≠ e.itinerary := by
    intro event e he heq
    obtain ⟨_, it, hit⟩ := h.stored event e he
    exact hnew (heq ▸ h.used _ it hit)
  refine ⟨h.sorted.insert _ _, ?_, h.sublist.trans (List.sublist_append_left _ _), ?_, ?_, ?_⟩
  · intro key it hthere
    rcases Table.of_get?_insert hthere with ⟨rfl, _⟩ | ⟨_, hthere⟩
    · simp
    · exact List.mem_append_left _ (h.used key it hthere)
  · intro key key' it it' hthere hthere' htrip
    rcases Table.of_get?_insert hthere with ⟨rfl, rfl⟩ | ⟨_, hthere⟩
    · rcases Table.of_get?_insert hthere' with ⟨rfl, _⟩ | ⟨_, hthere'⟩
      · rfl
      · exact absurd htrip.symm (hother key' it' hthere')
    · rcases Table.of_get?_insert hthere' with ⟨rfl, rfl⟩ | ⟨_, hthere'⟩
      · exact absurd htrip (hother key it hthere)
      · exact h.trips key key' it it' hthere hthere' htrip
  · intro event e he
    obtain ⟨hmem, it, hit⟩ := h.stored event e he
    exact ⟨hmem, it, by rw [Table.get?_insert, if_neg (hunnamed event e he), hit]⟩
  · intro key it hthere
    rcases Table.of_get?_insert hthere with ⟨rfl, rfl⟩ | ⟨_, hthere⟩
    · refine (List.filter_eq_nil_iff.mpr fun event _ hof => ?_).symm
      obtain ⟨e, he, heq⟩ := isOf_iff.mp hof
      exact hunnamed event e he heq.symm
    · exact h.lists key it hthere

private theorem addition (h : s.Referenced ids log) (hnew : id ∉ ids) {key : String}
    {it : Itinerary}
    (hthere : s.itineraries.get? key = some it) {added : Event} (hadded : added.itinerary = key) :
    Referenced ⟨s.itineraries.insert key { it with events := it.events ++ [id] },
      s.events.insert id added⟩ (ids ++ [id]) (log ++ [id]) := by
  have hfresh : id ∉ log := fun hmem => hnew (h.sublist.subset hmem)
  have hfilter : ∀ other, (log ++ [id]).filter (isOf (s.events.insert id added) other) =
      log.filter (isOf s.events other) ++ if key = other then [id] else [] := by
    intro other
    have hbefore : log.filter (isOf (s.events.insert id added) other) =
        log.filter (isOf s.events other) := by
      refine List.filter_congr fun event hevent => ?_
      have hne : id ≠ event := by
        rintro rfl
        exact hfresh hevent
      rw [isOf_insert, if_neg hne]
    rw [List.filter_append, hbefore]
    by_cases heq : key = other
    · simp [isOf_insert, hadded, heq]
    · simp [isOf_insert, hadded, heq]
  refine ⟨h.sorted.insert _ _, ?_, h.sublist.append (.refl _), ?_, ?_, ?_⟩
  · intro other found hfound
    rcases Table.of_get?_insert hfound with ⟨rfl, _⟩ | ⟨_, hfound⟩
    · exact List.mem_append_left _ (h.used key it hthere)
    · exact List.mem_append_left _ (h.used other found hfound)
  · intro other other' found found' hfound hfound' htrip
    rcases Table.of_get?_insert hfound with ⟨rfl, rfl⟩ | ⟨_, hfound⟩ <;>
      rcases Table.of_get?_insert hfound' with ⟨rfl, rfl⟩ | ⟨_, hfound'⟩
    · rfl
    · exact h.trips _ _ _ _ hthere hfound' htrip
    · exact h.trips _ _ _ _ hfound hthere htrip
    · exact h.trips _ _ _ _ hfound hfound' htrip
  · intro event e he
    have hstays : ∀ other found, s.itineraries.get? other = some found → ∃ it',
        (s.itineraries.insert key { it with events := it.events ++ [id] }).get? other =
          some it' := by
      intro other found hfound
      rw [Table.get?_insert]
      split
      · exact ⟨_, rfl⟩
      · exact ⟨found, hfound⟩
    rcases Table.of_get?_insert he with ⟨rfl, rfl⟩ | ⟨_, he⟩
    · exact ⟨by simp, hstays _ it (hadded ▸ hthere)⟩
    · obtain ⟨hmem, found, hfound⟩ := h.stored event e he
      exact ⟨List.mem_append_left _ hmem, hstays _ found hfound⟩
  · intro other found hfound
    rw [hfilter]
    rcases Table.of_get?_insert hfound with ⟨rfl, rfl⟩ | ⟨hne, hfound⟩
    · rw [if_pos rfl, ← h.lists key it hthere]
    · rw [if_neg hne, List.append_nil, h.lists other found hfound]

end Referenced

private theorem told?_itinerary (key : String) :
    told? (.single "itinerary" (.string key)) = none := by
  simp [told?, Payload.string?, Payload.single, Table.get?]

private theorem told?_event (event : String) :
    told? (.single "event" (.string event)) = some event := by
  have herror := Payload.isError_single (by decide : "event" ≠ "error") (.string event)
  rw [told?, herror, if_neg Bool.false_ne_true]
  simp [Payload.string?, Payload.single, Table.get?, Value.asString?]

private theorem Acts.referenced (hacts : Acts id input s action (output, s'))
    {ids log : List String} (h : s.Referenced ids log) (hnew : id ∉ ids) :
    s'.Referenced (ids ++ [id]) (log ++ (told? output).toList) := by
  have hnil : told? [] = none := rfl
  cases hacts with
  | declines herror =>
    have hnone : told? output = none := if_pos herror
    rw [hnone, Option.toList_none, List.append_nil]
    exact h.unused id
  | finds _ _ =>
    rw [told?_itinerary, Option.toList_none, List.append_nil]
    exact h.unused id
  | creates _ hnone =>
    rw [told?_itinerary, Option.toList_none, List.append_nil]
    exact h.creation hnew hnone
  | adds _ hthere _ =>
    rw [told?_event, Option.toList_some]
    exact h.addition hnew hthere rfl
  | approves hevent _ _ =>
    rw [hnil, Option.toList_none, List.append_nil]
    refine .unused (h.changeEvent hevent ?_) id
    rfl
  | attaches _ _ hevent =>
    rw [hnil, Option.toList_none, List.append_nil]
    refine .unused (h.changeEvent hevent ?_) id
    rfl
  | finalizes hthere _ =>
    rw [hnil, Option.toList_none, List.append_nil]
    refine .unused (h.change hthere ?_ ?_) id
    · rfl
    · rfl

private theorem Referenced.after {ids log : List String} (h : s.Referenced ids log)
    {call : Machine.Call} (hnew : call.id ∉ ids) :
    (machine.after s call).Referenced (ids ++ [call.id]) (log ++ (s.created? call).toList) := by
  cases hact : machine.action? call.action with
  | none =>
    have hnone : s.created? call = none := by simp [created?, Machine.answer?, hact]
    rw [Machine.after_of_no_action hact, hnone, Option.toList_none, List.append_nil]
    exact h.unused call.id
  | some act =>
    have htold : s.created? call = told? (act call.id call.input s).1 := by
      simp [created?, Machine.answer?, hact]
    rw [Machine.after_of_action hact, htold]
    exact (acts hact call.id call.input s).referenced h hnew

private theorem Referenced.run {ids log : List String} (h : s.Referenced ids log)
    {calls : List Machine.Call} (hfresh : (ids ++ calls.map Machine.Call.id).Nodup) :
    (machine.run s calls).Referenced (ids ++ calls.map Machine.Call.id)
      (log ++ s.created calls) := by
  induction calls generalizing s ids log with
  | nil => simpa [created, Machine.run] using h
  | cons call rest ih =>
    have hnew : call.id ∉ ids := by
      intro hmem
      exact List.disjoint_of_nodup_append hfresh hmem (by simp)
    have hrest := ih (h.after hnew) (by simpa using hfresh)
    simpa [created, Machine.run_cons] using hrest

def Priced (s : ItineraryPlanner) : Prop :=
  ∀ event e, s.events.get? event = some e → e.cost.lt .zero = false

private theorem Priced.insert (h : s.Priced) {event : String} {e : Event}
    (he : e.cost.lt .zero = false) (itineraries : Table String Itinerary) :
    Priced ⟨itineraries, s.events.insert event e⟩ := by
  intro other found hfound
  rcases Table.of_get?_insert hfound with ⟨_, rfl⟩ | ⟨_, hfound⟩
  · exact he
  · exact h other found hfound

private theorem priced_of_act
    {act : String → Payload → ItineraryPlanner → Payload × ItineraryPlanner}
    (hact : machine.action? action = some act) (id : String) (input : Payload) (h : s.Priced) :
    (act id input s).2.Priced := by
  unfold machine at hact
  simp only at hact
  split at hact <;> cases hact
  · unfold create
    split
    · exact h
    · split <;> exact h
  · unfold addEvent
    split
    · split
      · exact h
      · next cost hcost =>
        split
        · exact h
        · have hpositive := (Option.filter_eq_some_iff.mp hcost).2
          exact h.insert (by simpa using hpositive) _
    · exact h
  · unfold approveEvent
    split
    · simp only
      split
      · exact h
      · split
        · next e hevent =>
          have hthere := (Option.filter_eq_some_iff.mp hevent).1
          refine h.insert ?_ _
          exact h _ e hthere
        · exact h
    · exact h
  · unfold attachPollToEvent
    split
    · split
      · next e hthere =>
        refine h.insert ?_ _
        exact h _ e hthere
      · exact h
    · exact h
  · unfold finalizeItinerary
    split
    · exact h
    · split <;> exact h

def Answers (s : ItineraryPlanner) (listed : List String) (input : Payload) : Prop :=
  ∃ entries : List (String × Event), entries.map Prod.fst = listed ∧
    (∀ e ∈ entries, s.events.get? e.1 = some e.2) ∧
    let documents := entries.map fun e => e.2.document e.1
    getAllEventsForItinerary input s = [.single "events" (.array documents)] ∧
    getApprovedEventsForItinerary input s =
      [.single "events" (.array (documents.filter saysApproved))]

/-- The references of a state, and what its actions and queries make of them. The log has the
events that were created, in order. -/
structure CrossReferenced (s : ItineraryPlanner) (log : List String) : Prop where
  once : log.Nodup
  /-- No trip has two itineraries. -/
  trips : ∀ key key' it it', s.itineraries.get? key = some it → s.itineraries.get? key' = some it' →
    it.trip = it'.trip → key = key'
  /-- Every event belongs to an itinerary that is there, and its cost is not negative. -/
  belongs : ∀ event e, s.events.get? event = some e →
    (∃ it, s.itineraries.get? e.itinerary = some it) ∧ e.cost.lt .zero = false
  /-- An itinerary lists the events that name it, each of them once, in order of creation. -/
  lists : ∀ key it, s.itineraries.get? key = some it → it.events.Nodup ∧ it.events.Sublist log ∧
    ∀ event, event ∈ it.events ↔ ∃ e, s.events.get? event = some e ∧ e.itinerary = key
  /-- To create the itinerary of a trip that has one gives that one. -/
  recreates : ∀ key it, s.itineraries.get? key = some it → ∀ id input,
    input.text? "trip" = some it.trip →
      create id input s = (.single "itinerary" (.string key), s)
  /-- A finalized itinerary takes no events, no approvals and no second finalization. -/
  refuses : ∀ key it, s.itineraries.get? key = some it → it.finalized = true →
    ∀ act ∈ [addEvent, approveEvent, finalizeItinerary], ∀ id input,
      input.string? "itinerary" = some key →
        (act id input s).1.isError = true ∧ (act id input s).2 = s
  /-- Asked for its events, an itinerary leaves none out. -/
  queries : ∀ key it, s.itineraries.get? key = some it → ∀ input,
    input.text? "itinerary" = some key → s.Answers it.events input

private theorem openItinerary_of_finalized {key : String} {it : Itinerary}
    (hthere : s.itineraries.get? key = some it) (hfinal : it.finalized = true) :
    s.openItinerary key =
      .error ("Itinerary " ++ key ++ " is finalized and cannot be modified.") := by
  simp [openItinerary, hthere, hfinal]

private theorem eq_of_text? {field key text : String} (hstring : input.string? field = some key)
    (htext : input.text? field = some text) : text = key := by
  unfold Payload.text? at htext
  rw [hstring] at htext
  exact (Option.some.inj (Option.filter_eq_some_iff.mp htext).1).symm

private theorem refused_of_finalized {key : String} {it : Itinerary}
    (hthere : s.itineraries.get? key = some it) (hfinal : it.finalized = true)
    {act : String → Payload → ItineraryPlanner → Payload × ItineraryPlanner}
    (hact : act ∈ [addEvent, approveEvent, finalizeItinerary]) (id : String)
    (hkey : input.string? "itinerary" = some key) :
    (act id input s).1.isError = true ∧ (act id input s).2 = s := by
  have hclosed := openItinerary_of_finalized hthere hfinal
  simp only [List.mem_cons, List.not_mem_nil, or_false] at hact
  rcases hact with rfl | rfl | rfl
  · unfold addEvent
    split
    · next hitinerary _ =>
      obtain rfl := eq_of_text? hkey hitinerary
      rw [hclosed]
      split <;> exact ⟨Payload.isError_error _, rfl⟩
    · exact ⟨Payload.isError_error _, rfl⟩
  · unfold approveEvent
    split
    · next hitinerary _ =>
      obtain rfl := eq_of_text? hkey hitinerary
      rw [hclosed]
      exact ⟨Payload.isError_error _, rfl⟩
    · exact ⟨Payload.isError_error _, rfl⟩
  · unfold finalizeItinerary
    split
    · exact ⟨Payload.isError_error _, rfl⟩
    · next hitinerary =>
      obtain rfl := eq_of_text? hkey hitinerary
      rw [hclosed]
      exact ⟨Payload.isError_error _, rfl⟩

namespace Referenced

variable {ids log : List String}

private theorem create_of_present (h : s.Referenced ids log) {key : String} {it : Itinerary}
    (hthere : s.itineraries.get? key = some it) (id : String)
    (htrip : input.text? "trip" = some it.trip) :
    create id input s = (.single "itinerary" (.string key), s) := by
  have hmem := Table.mem_of_get? hthere
  have hfound : ∃ it', s.ofTrip? it.trip = some (key, it') := by
    cases hfind : s.ofTrip? it.trip with
    | none =>
      have hother := List.find?_eq_none.mp hfind (key, it) hmem
      exact absurd (beq_self_eq_true it.trip) hother
    | some entry =>
      obtain ⟨key', it'⟩ := entry
      unfold ofTrip? at hfind
      have hsame := List.find?_some hfind
      have htrip' : it'.trip = it.trip := beq_iff_eq.mp hsame
      have hthere' := Table.get?_of_mem h.sorted.nodup_keys (List.mem_of_find?_eq_some hfind)
      obtain rfl := h.trips key' key it' it hthere' hthere htrip'
      exact ⟨it', rfl⟩
  obtain ⟨it', hfound⟩ := hfound
  simp only [create, htrip, hfound]

private theorem mem_events (h : s.Referenced ids log) {key : String} {it : Itinerary}
    (hthere : s.itineraries.get? key = some it) (event : String) :
    event ∈ it.events ↔ ∃ e, s.events.get? event = some e ∧ e.itinerary = key := by
  rw [h.lists key it hthere, List.mem_filter, isOf_iff]
  constructor
  · exact And.right
  · rintro ⟨e, he, heq⟩
    exact ⟨(h.stored event e he).1, e, he, heq⟩

end Referenced

private theorem exists_entries {events : Table String Event} {listed : List String}
    (h : ∀ event ∈ listed, ∃ e, events.get? event = some e) :
    ∃ entries : List (String × Event), entries.map Prod.fst = listed ∧
      (∀ e ∈ entries, events.get? e.1 = some e.2) ∧
      listed.filterMap (fun event => (events.get? event).map fun e => (event, e)) = entries := by
  induction listed with
  | nil => exact ⟨[], rfl, nofun, rfl⟩
  | cons event rest ih =>
    obtain ⟨e, he⟩ := h event (List.mem_cons_self ..)
    obtain ⟨entries, hkeys, hstored, hentries⟩ :=
      ih fun other hother => h other (List.mem_cons_of_mem _ hother)
    refine ⟨(event, e) :: entries, by rw [List.map_cons, hkeys], ?_, ?_⟩
    · exact List.forall_mem_cons.mpr ⟨he, hstored⟩
    · rw [List.filterMap_cons, he, Option.map_some, hentries]

private theorem saysApproved_document (id : String) (e : Event) :
    saysApproved (e.document id) = e.approved := by
  simp [saysApproved, Event.field?_approved_document, Value.asBool?]

private theorem answers_of_stored {key : String} {it : Itinerary}
    (hthere : s.itineraries.get? key = some it)
    (hstored : ∀ event ∈ it.events, ∃ e, s.events.get? event = some e)
    (hkey : input.text? "itinerary" = some key) : s.Answers it.events input := by
  obtain ⟨entries, hkeys, hentries, hfound⟩ := exists_entries hstored
  have hfilter : (entries.map fun e => e.2.document e.1).filter saysApproved =
      (entries.filter fun e => e.2.approved).map fun e => e.2.document e.1 := by
    rw [List.filter_map]
    congr 1
    exact List.filter_congr fun e _ => saysApproved_document e.1 e.2
  refine ⟨entries, hkeys, hentries, ?_, ?_⟩
  · simp only [getAllEventsForItinerary, eventsWhere, hkey, Option.bind_some, hthere, hfound,
      List.filter_true]
  · simp only [getApprovedEventsForItinerary, eventsWhere, hkey, Option.bind_some, hthere, hfound,
      hfilter]

private theorem Referenced.crossReferenced {ids log : List String} (h : s.Referenced ids log)
    (hids : ids.Nodup) (hpriced : s.Priced) : s.CrossReferenced log where
  once := hids.sublist h.sublist
  trips := h.trips
  belongs event e he := ⟨(h.stored event e he).2, hpriced event e he⟩
  lists key it hthere := by
    have hsublist : it.events.Sublist log := by
      rw [h.lists key it hthere]
      exact List.filter_sublist
    exact ⟨(hids.sublist h.sublist).sublist hsublist, hsublist, h.mem_events hthere⟩
  recreates key it hthere id input htrip := h.create_of_present hthere id htrip
  refuses key it hthere hfinal act hact id input hkey :=
    refused_of_finalized hthere hfinal hact id hkey
  queries key it hthere input hkey := by
    refine answers_of_stored hthere (fun event hevent => ?_) hkey
    obtain ⟨e, he, _⟩ := (h.mem_events hthere event).mp hevent
    exact ⟨e, he⟩

/-- Whatever calls are made, as long as no identifier is issued twice, itineraries and events refer
to each other. -/
theorem crossReferenced_run (calls : List Machine.Call)
    (hfresh : (calls.map Machine.Call.id).Nodup) :
    (machine.run empty calls).CrossReferenced (created empty calls) := by
  have hnew : ([] ++ calls.map Machine.Call.id).Nodup := hfresh
  have hreferenced := Referenced.start.run hnew
  have hpriced : (machine.run empty calls).Priced := by
    refine Machine.run_keeps (fun call _ s hs => ?_) nofun
    exact Machine.after_keeps (fun act hact => priced_of_act hact call.id call.input hs) hs
  exact hreferenced.crossReferenced hfresh hpriced

private def twoTrips : List Machine.Call :=
  [⟨"i1", "create", [("trip", .string "Lisbon")]⟩,
    ⟨"i2", "create", [("trip", .string "Oslo")]⟩,
    ⟨"e1", "addEvent",
      [("cost", .ofNat 20), ("itinerary", .string "i1"), ("name", .string "Tram")]⟩,
    ⟨"e2", "addEvent",
      [("cost", .ofNat 0), ("itinerary", .string "i2"), ("name", .string "Opera")]⟩,
    ⟨"n1", "create", [("trip", .string "Lisbon")]⟩,
    ⟨"e3", "addEvent",
      [("cost", .ofNat 7), ("itinerary", .string "i1"), ("name", .string "Fado")]⟩,
    ⟨"n2", "addEvent",
      [("cost", .ofInt (-1)), ("itinerary", .string "i1"), ("name", .string "Refund")]⟩,
    ⟨"n3", "approveEvent", [("event", .string "e3"), ("itinerary", .string "i1")]⟩,
    ⟨"n4", "attachPollToEvent", [("event", .string "e1"), ("poll", .string "p1")]⟩,
    ⟨"n5", "finalizeItinerary", [("itinerary", .string "i1")]⟩,
    ⟨"e4", "addEvent",
      [("cost", .ofNat 5), ("itinerary", .string "i1"), ("name", .string "Beach")]⟩]

theorem crossReferenced_run_twoTrips :
    (twoTrips.map Machine.Call.id).Nodup ∧
      created empty twoTrips = ["e1", "e2", "e3"] ∧
      (machine.run empty twoTrips).itineraries.map (fun e => (e.1, e.2.finalized, e.2.events)) =
        [("i1", true, ["e1", "e3"]), ("i2", false, ["e2"])] ∧
      (machine.run empty twoTrips).CrossReferenced ["e1", "e2", "e3"] := by
  have hfresh : (twoTrips.map Machine.Call.id).Nodup := by decide
  have hcreated : created empty twoTrips = ["e1", "e2", "e3"] := by decide +kernel
  refine ⟨hfresh, hcreated, by decide +kernel, ?_⟩
  have hrun := crossReferenced_run twoTrips hfresh
  rwa [hcreated] at hrun

end ItineraryPlanner

end Travel

end ConceptSync
