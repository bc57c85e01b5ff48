import ConceptSync.Proofs.Travel.Actions

set_option autoImplicit false
set_option relaxedAutoImplicit false

/-!
What can still change. A finalized itinerary with its events and a closed poll stay as they are under
every action that looks first whether they can change; the two actions that do not look keep them
where they find nothing final.
-/

namespace ConceptSync

namespace Travel

namespace ItineraryPlanner

variable {known known' : String → Prop} {id action : String} {input output : Payload}
  {s s' s'' : ItineraryPlanner}

/-- Itineraries and events are stored under known identifiers, and what an itinerary lists are
events of its own. -/
structure Shelved (known : String → Prop) (s : ItineraryPlanner) : Prop where
  itineraries : ∀ key it, s.itineraries.get? key = some it → known key
  events : ∀ event e, s.events.get? event = some e → known event
  listed : ∀ key it, s.itineraries.get? key = some it → ∀ event ∈ it.events,
    ∃ e, s.events.get? event = some e ∧ e.itinerary = key

def Final (s : ItineraryPlanner) (key : String) : Prop :=
  ∃ it, s.itineraries.get? key = some it ∧ it.finalized = true

/-- What was finalized stays as it is: the itinerary itself, the events it lists, and which events
there are of it. -/
structure KeepsFinal (s s' : ItineraryPlanner) : Prop where
  itinerary : ∀ key, s.Final key → s'.itineraries.get? key = s.itineraries.get? key
  listed : ∀ key it, s.itineraries.get? key = some it → it.finalized = true →
    ∀ event ∈ it.events, s'.events.get? event = s.events.get? event
  belonging : ∀ event e, s.Final e.itinerary →
    (s'.events.get? event = some e ↔ s.events.get? event = some e)

namespace KeepsFinal

theorem refl (s : ItineraryPlanner) : KeepsFinal s s :=
  ⟨fun _ _ => rfl, fun _ _ _ _ _ _ => rfl, fun _ _ _ => Iff.rfl⟩

private theorem final (h : KeepsFinal s s') {key : String} (hfinal : s.Final key) :
    s'.Final key := by
  obtain ⟨it, hthere, hfinalized⟩ := hfinal
  exact ⟨it, (h.itinerary key ⟨it, hthere, hfinalized⟩).trans hthere, hfinalized⟩

theorem trans (h : KeepsFinal s s') (h' : KeepsFinal s' s'') : KeepsFinal s s'' where
  itinerary key hfinal := (h'.itinerary key (h.final hfinal)).trans (h.itinerary key hfinal)
  listed key it hthere hfinalized event hevent := by
    have hstays := (h.itinerary key ⟨it, hthere, hfinalized⟩).trans hthere
    exact (h'.listed key it hstays hfinalized event hevent).trans
      (h.listed key it hthere hfinalized event hevent)
  belonging event e hfinal :=
    (h'.belonging event e (h.final hfinal)).trans (h.belonging event e hfinal)

private theorem of_belonging (hshelved : s.Shelved known)
    (hitinerary : ∀ key, s.Final key → s'.itineraries.get? key = s.itineraries.get? key)
    (hbelonging : ∀ event e, s.Final e.itinerary →
      (s'.events.get? event = some e ↔ s.events.get? event = some e)) : KeepsFinal s s' := by
  refine ⟨hitinerary, fun key it hthere hfinalized event hevent => ?_, hbelonging⟩
  obtain ⟨e, he, rfl⟩ := hshelved.listed key it hthere event hevent
  rw [he, (hbelonging event e ⟨it, hthere, hfinalized⟩).mpr he]

end KeepsFinal

private theorem get?_insert_of_final {key other : String} (changed : Itinerary)
    (hchanges : ∀ it, s.itineraries.get? key = some it → it.finalized = false)
    (hfinal : s.Final other) :
    (s.itineraries.insert key changed).get? other = s.itineraries.get? other := by
  obtain ⟨it, hthere, hfinalized⟩ := hfinal
  rw [Table.get?_insert, if_neg]
  rintro rfl
  simp [hchanges it hthere] at hfinalized

private theorem get?_insert_of_belonging {key event : String} {changed e : Event}
    (hopen : ¬ s.Final changed.itinerary)
    (hsame : ∀ old, s.events.get? key = some old → old.itinerary = changed.itinerary)
    (hfinal : s.Final e.itinerary) :
    (s.events.insert key changed).get? event = some e ↔ s.events.get? event = some e := by
  rw [Table.get?_insert]
  split
  · next heq =>
    subst heq
    constructor
    · intro h
      cases h
      exact absurd hfinal hopen
    · intro h
      exact absurd (hsame e h ▸ hfinal) hopen
  · exact Iff.rfl

private theorem not_final {key : String} {it : Itinerary}
    (hthere : s.itineraries.get? key = some it) (hopen : it.finalized = false) : ¬ s.Final key := by
  rintro ⟨it', hthere', hfinalized⟩
  rw [hthere] at hthere'
  cases hthere'
  simp [hopen] at hfinalized

theorem Acts.keepsFinal (h : Acts id input s action (output, s')) (hshelved : s.Shelved known)
    (hnew : ¬ known id)
    (hcalm : ∀ event poll e, action = "attachPollToEvent" → input.text? "event" = some event →
      input.text? "poll" = some poll → s.events.get? event = some e → s.Final e.itinerary →
      e.poll = some poll) : s.KeepsFinal s' := by
  cases h with
  | declines _ => exact .refl s
  | finds _ _ => exact .refl s
  | creates _ _ =>
    refine .of_belonging hshelved (fun key hfinal => ?_) fun _ _ _ => Iff.rfl
    exact get?_insert_of_final _ (fun it hthere => absurd (hshelved.itineraries _ it hthere) hnew)
      hfinal
  | adds _ hthere hopen =>
    refine .of_belonging hshelved (fun key hfinal => ?_) fun event e hfinal => ?_
    · refine get?_insert_of_final _ (fun it hthere' => ?_) hfinal
      rw [hthere] at hthere'
      exact Option.some.inj hthere' ▸ hopen
    · exact get?_insert_of_belonging (not_final hthere hopen)
        (fun old hold => absurd (hshelved.events _ old hold) hnew) hfinal
  | approves hevent hthere hopen =>
    refine .of_belonging hshelved (fun _ _ => rfl) fun event e hfinal => ?_
    refine get?_insert_of_belonging (not_final hthere hopen) (fun old hold => ?_) hfinal
    rw [hevent] at hold
    exact Option.some.inj hold ▸ rfl
  | @attaches event poll e hinput hpoll hevent =>
    by_cases hfinal : s.Final e.itinerary
    · have hsame : { e with poll := some poll } = e := by
        rw [← hcalm event poll e rfl hinput hpoll hevent hfinal]
      refine .of_belonging hshelved (fun _ _ => rfl) fun other e' _ => ?_
      rw [hsame, Table.get?_insert]
      split
      · next heq => rw [← heq, hevent]
      · exact Iff.rfl
    · refine .of_belonging hshelved (fun _ _ => rfl) fun other e' hfinal' => ?_
      refine get?_insert_of_belonging hfinal (fun old hold => ?_) hfinal'
      rw [hevent] at hold
      exact Option.some.inj hold ▸ rfl
  | finalizes hthere hopen =>
    refine .of_belonging hshelved (fun key hfinal => ?_) fun _ _ _ => Iff.rfl
    refine get?_insert_of_final _ (fun it hthere' => ?_) hfinal
    rw [hthere] at hthere'
    exact Option.some.inj hthere' ▸ hopen

private theorem exists_get?_insert {key event : String} {changed e : Event}
    (hsame : ∀ old, s.events.get? key = some old → old.itinerary = changed.itinerary)
    (hthere : s.events.get? event = some e) :
    ∃ e', (s.events.insert key changed).get? event = some e' ∧ e'.itinerary = e.itinerary := by
  rw [Table.get?_insert]
  split
  · next heq =>
    subst heq
    exact ⟨changed, rfl, (hsame e hthere).symm⟩
  · exact ⟨e, hthere, rfl⟩

namespace Shelved

theorem mono (h : s.Shelved known) (hknown : ∀ key, known key → known' key) : s.Shelved known' :=
  ⟨fun key it hthere => hknown key (h.itineraries key it hthere),
    fun event e hthere => hknown event (h.events event e hthere), h.listed⟩

private theorem change (h : s.Shelved known) {key : String} {it changed : Itinerary}
    (hthere : s.itineraries.get? key = some it) (hevents : changed.events = it.events) :
    Shelved known { s with itineraries := s.itineraries.insert key changed } := by
  refine ⟨fun other it' hthere' => ?_, h.events, fun other it' hthere' event hevent => ?_⟩
  · rw [Table.get?_insert] at hthere'
    split at hthere'
    · next heq => exact heq ▸ h.itineraries key it hthere
    · exact h.itineraries other it' hthere'
  · rw [Table.get?_insert] at hthere'
    split at hthere'
    · next heq =>
      cases hthere'
      exact heq ▸ h.listed key it hthere event (hevents ▸ hevent)
    · exact h.listed other it' hthere' event hevent

private theorem changeEvent (h : s.Shelved known) {key : String} {e changed : Event}
    (hthere : s.events.get? key = some e) (hsame : changed.itinerary = e.itinerary) :
    Shelved known { s with events := s.events.insert key changed } := by
  refine ⟨h.itineraries, fun event e' hthere' => ?_, fun other it hit event hevent => ?_⟩
  · rw [Table.get?_insert] at hthere'
    split at hthere'
    · next heq => exact heq ▸ h.events key e hthere
    · exact h.events event e' hthere'
  · obtain ⟨e', he', rfl⟩ := h.listed other it hit event hevent
    refine exists_get?_insert (fun old hold => ?_) he'
    rw [hthere] at hold
    exact Option.some.inj hold ▸ hsame.symm

private theorem creation (h : s.Shelved known) (hid : known id) (trip : String) :
    Shelved known { s with itineraries := s.itineraries.insert id ⟨trip, false, []⟩ } := by
  refine ⟨fun key it hthere => ?_, h.events, fun key it hthere event hevent => ?_⟩
  · rw [Table.get?_insert] at hthere
    split at hthere
    · next heq => exact heq ▸ hid
    · exact h.itineraries key it hthere
  · rw [Table.get?_insert] at hthere
    split at hthere
    · cases hthere
      cases hevent
    · exact h.listed key it hthere event hevent

private theorem addition (h : s.Shelved known) (hid : known id) (hnew : s.events.get? id = none)
    {key : String} {it : Itinerary} (hthere : s.itineraries.get? key = some it) {added : Event}
    (hadded : added.itinerary = key) :
    Shelved known ⟨s.itineraries.insert key { it with events := it.events ++ [id] },
      s.events.insert id added⟩ := by
  have hold : ∀ event e, s.events.get? event = some e →
      ∃ e', (s.events.insert id added).get? event = some e' ∧ e'.itinerary = e.itinerary :=
    fun event e he => exists_get?_insert (by simp [hnew]) he
  refine ⟨fun other it' hthere' => ?_, fun event e he => ?_,
    fun other it' hthere' event hevent => ?_⟩
  · rw [Table.get?_insert] at hthere'
    split at hthere'
    · next heq => exact heq ▸ h.itineraries key it hthere
    · exact h.itineraries other it' hthere'
  · rw [Table.get?_insert] at he
    split at he
    · next heq => exact heq ▸ hid
    · exact h.events event e he
  · rw [Table.get?_insert] at hthere'
    split at hthere'
    · next heq =>
      cases hthere'
      rcases List.mem_append.mp hevent with hlisted | hlast
      · obtain ⟨e, he, hkey⟩ := h.listed key it hthere event hlisted
        obtain ⟨e', he', hsame⟩ := hold event e he
        exact ⟨e', he', (hsame.trans hkey).trans heq⟩
      · obtain rfl := List.mem_singleton.mp hlast
        exact ⟨added, Table.get?_insert_self _ _ _, hadded.trans heq⟩
    · obtain ⟨e, he, hkey⟩ := h.listed other it' hthere' event hevent
      obtain ⟨e', he', hsame⟩ := hold event e he
      exact ⟨e', he', hsame.trans hkey⟩

end Shelved

theorem Acts.shelved (h : Acts id input s action (output, s')) (hshelved : s.Shelved known)
    (hknown : ∀ key, known key → known' key) (hid : known' id) (hnew : ¬ known id) :
    s'.Shelved known' := by
  have hthen := hshelved.mono hknown
  cases h with
  | declines _ => exact hthen
  | finds _ _ => exact hthen
  | creates _ _ => exact hthen.creation hid _
  | adds _ hthere _ =>
    refine hthen.addition hid (Option.eq_none_iff_forall_not_mem.mpr fun e he => ?_) hthere rfl
    exact hnew (hshelved.events id e he)
  | approves hevent _ _ => exact hthen.changeEvent hevent rfl
  | attaches _ _ hevent => exact hthen.changeEvent hevent rfl
  | finalizes hthere _ => exact hthen.change hthere rfl

end ItineraryPlanner

namespace Polling

variable {known known' : String → Prop} {id action : String} {input output : Payload}
  {polls polls' polls'' : Polling}

def Shelved (known : String → Prop) (polls : Polling) : Prop :=
  ∀ key poll, polls.get? key = some poll → known key

def KeepsClosed (polls polls' : Polling) : Prop :=
  ∀ key poll, polls.get? key = some poll → poll.closed = true →
    ∃ after, polls'.get? key = some after ∧ after.closed = true ∧
      after.options = poll.options ∧ after.votes = poll.votes

theorem KeepsClosed.refl (polls : Polling) : KeepsClosed polls polls :=
  fun _ poll hthere hclosed => ⟨poll, hthere, hclosed, rfl, rfl⟩

theorem KeepsClosed.trans (h : KeepsClosed polls polls') (h' : KeepsClosed polls' polls'') :
    KeepsClosed polls polls'' := by
  intro key poll hthere hclosed
  obtain ⟨middle, hmiddle, hstill, hoptions, hvotes⟩ := h key poll hthere hclosed
  obtain ⟨after, hafter, hstill', hoptions', hvotes'⟩ := h' key middle hmiddle hstill
  exact ⟨after, hafter, hstill', hoptions'.trans hoptions, hvotes'.trans hvotes⟩

private theorem keepsClosed_insert {key : String} {changed : Poll}
    (hchanges : ∀ poll, polls.get? key = some poll → poll.closed = true →
      changed.closed = true ∧ changed.options = poll.options ∧ changed.votes = poll.votes) :
    KeepsClosed polls (polls.insert key changed) := by
  intro other poll hthere hclosed
  rw [Table.get?_insert]
  split
  · next heq => exact ⟨changed, rfl, hchanges poll (heq ▸ hthere) hclosed⟩
  · exact ⟨poll, hthere, hclosed, rfl, rfl⟩

theorem Acts.keepsClosed (h : Acts id input polls action (output, polls'))
    (hshelved : Shelved known polls) (hnew : ¬ known id)
    (hcalm : ∀ user key label poll, action = "addOption" → input.text? "actingUser" = some user →
      input.text? "poll" = some key → input.text? "label" = some label →
      polls.get? key = some poll → poll.creator = user → label ∉ poll.options →
      poll.closed = false) : KeepsClosed polls polls' := by
  have hopen : ∀ {key : String} {poll : Poll}, polls.get? key = some poll → poll.closed = false →
      ∀ old, polls.get? key = some old → old.closed ≠ true := by
    intro key poll hthere hopen old hold
    rw [hthere] at hold
    cases hold
    simp [hopen]
  cases h with
  | declines _ => exact .refl polls
  | creates _ _ =>
    exact keepsClosed_insert fun poll hthere _ => absurd (hshelved id poll hthere) hnew
  | adds huser hkey hlabel hthere hcreator hoption =>
    have hstill := hcalm _ _ _ _ rfl huser hkey hlabel hthere hcreator hoption
    exact keepsClosed_insert fun old hold hclosed => absurd hclosed (hopen hthere hstill old hold)
  | votes _ _ _ hthere hstill _ =>
    exact keepsClosed_insert fun old hold hclosed => absurd hclosed (hopen hthere hstill old hold)
  | closes _ _ hthere =>
    refine keepsClosed_insert fun old hold _ => ?_
    rw [hthere] at hold
    cases hold
    exact ⟨rfl, rfl, rfl⟩

theorem Acts.shelved (h : Acts id input polls action (output, polls'))
    (hshelved : Shelved known polls) (hknown : ∀ key, known key → known' key)
    (hid : known' id) : Shelved known' polls' := by
  have hinsert : ∀ key changed, known' key → Shelved known' (polls.insert key changed) := by
    intro key changed hkey other poll hthere
    rw [Table.get?_insert] at hthere
    split at hthere
    · next heq => exact heq ▸ hkey
    · exact hknown other (hshelved other poll hthere)
  cases h with
  | declines _ => exact fun key poll hthere => hknown key (hshelved key poll hthere)
  | creates _ _ => exact hinsert _ _ hid
  | adds _ _ _ hthere _ _ => exact hinsert _ _ (hknown _ (hshelved _ _ hthere))
  | votes _ _ _ hthere _ _ => exact hinsert _ _ (hknown _ (hshelved _ _ hthere))
  | closes _ _ hthere => exact hinsert _ _ (hknown _ (hshelved _ _ hthere))

end Polling

end Travel

end ConceptSync
