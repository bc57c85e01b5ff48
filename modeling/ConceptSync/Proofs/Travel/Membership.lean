import Mathlib.Data.List.Nodup
import ConceptSync.Proofs.Machine
import ConceptSync.Proofs.Table
import ConceptSync.Proofs.Travel.Actions

set_option autoImplicit false
set_option relaxedAutoImplicit false

/-!
Ownership and membership of trips. A trip is what its creation made of it, but for the participants
whom its owner adds one after the other, until its owner deletes it. Asking for the trips of a user
gives those that the user takes part in.
-/

namespace ConceptSync

namespace Travel

namespace Trip

def founded (owner name : String) (input : Payload) : Trip where
  owner := owner
  name := name
  destination := (input.get? "destination").getD .null
  dateRange := (input.get? "dateRange").getD .null
  participants := [owner]

def withParticipant (trip : Trip) (participant : String) : Trip :=
  { trip with participants := trip.participants ++ [participant] }

structure Enrolled (trip : Trip) : Prop where
  first : trip.participants.head? = some trip.owner
  once : trip.participants.Nodup
  named : ∀ participant ∈ trip.participants, Text.isAllBlank participant = false

/-- A trip at a later moment: it may have gained participants, at the end. -/
structure Keeps (before after : Trip) : Prop where
  owner : after.owner = before.owner
  name : after.name = before.name
  destination : after.destination = before.destination
  dateRange : after.dateRange = before.dateRange
  participants : before.participants <+: after.participants

private theorem Enrolled.founded {owner name : String} {input : Payload}
    (howner : Text.isAllBlank owner = false) : (founded owner name input).Enrolled where
  first := rfl
  once := List.nodup_singleton owner
  named _ hmem := List.mem_singleton.mp hmem ▸ howner

private theorem Enrolled.withParticipant {trip : Trip} (h : trip.Enrolled) {participant : String}
    (hnamed : Text.isAllBlank participant = false) (hnew : participant ∉ trip.participants) :
    (trip.withParticipant participant).Enrolled where
  first := by simp [Trip.withParticipant, h.first]
  once := List.nodup_append_comm.mpr (List.nodup_cons.mpr ⟨hnew, h.once⟩)
  named other hmem := by
    rcases List.mem_append.mp hmem with hold | hlast
    · exact h.named other hold
    · exact List.mem_singleton.mp hlast ▸ hnamed

private theorem Keeps.refl (trip : Trip) :
    trip.Keeps trip := ⟨rfl, rfl, rfl, rfl, List.prefix_refl _⟩

private theorem Keeps.trans {before middle after : Trip} (h : before.Keeps middle)
    (h' : middle.Keeps after) : before.Keeps after where
  owner := h'.owner.trans h.owner
  name := h'.name.trans h.name
  destination := h'.destination.trans h.destination
  dateRange := h'.dateRange.trans h.dateRange
  participants := h.participants.trans h'.participants

private theorem Keeps.withParticipant (trip : Trip) (participant : String) :
    trip.Keeps (trip.withParticipant participant) :=
  ⟨rfl, rfl, rfl, rfl, List.prefix_append _ _⟩

end Trip

namespace TripPlanning

variable {trips : TripPlanning} {call : Machine.Call} {key owner name participant : String}
  {trip : Trip} {ids : List String}

structure Creates (call : Machine.Call) (key owner name : String) : Prop where
  action : call.action = "create"
  id : call.id = key
  owner : call.input.text? "owner" = some owner
  name : call.input.text? "name" = some name

structure Deletes (call : Machine.Call) (key : String) (trip : Trip) : Prop where
  action : call.action = "delete"
  owner : call.input.text? "owner" = some trip.owner
  tripId : call.input.text? "tripId" = some key

/-- A call by which the owner of a trip adds a participant to it. -/
structure Enrols (call : Machine.Call) (key : String) (trip : Trip) (participant : String) :
    Prop where
  action : call.action = "addParticipant"
  owner : call.input.text? "owner" = some trip.owner
  tripId : call.input.text? "tripId" = some key
  new : participant ∉ trip.participants
  participant : call.input.text? "participant" = some participant

/-- What a call makes of the trip of an identifier, if there is one. -/
inductive Becomes (call : Machine.Call) (key : String) : Option Trip → Option Trip → Prop
  | created {owner name : String} : Creates call key owner name →
      Becomes call key none (some (.founded owner name call.input))
  | lacking : (∀ owner name, ¬Creates call key owner name) → Becomes call key none none
  | deleted {trip : Trip} : Deletes call key trip → Becomes call key (some trip) none
  | joined {trip : Trip} {participant : String} : Enrols call key trip participant →
      Becomes call key (some trip) (some (trip.withParticipant participant))
  | kept {trip : Trip} : ¬Deletes call key trip →
      (∀ participant, ¬Enrols call key trip participant) →
      Becomes call key (some trip) (some trip)

private theorem Creates.after (h : Creates call key owner name) (trips : TripPlanning) :
    machine.after trips call = trips.insert key (.founded owner name call.input) := by
  have hact : machine.action? call.action = some create := by rw [h.action]; rfl
  rw [Machine.after_of_action hact, h.id]
  simp only [create, h.owner, h.name]
  rfl

private theorem Deletes.after (h : Deletes call key trip) (hthere : trips.get? key = some trip) :
    machine.after trips call = trips.erase key := by
  have hact : machine.action? call.action = some delete := by rw [h.action]; rfl
  rw [Machine.after_of_action hact]
  simp only [delete, h.owner, h.tripId, hthere, if_true]

private theorem Enrols.after (h : Enrols call key trip participant)
    (hthere : trips.get? key = some trip) :
    machine.after trips call = trips.insert key (trip.withParticipant participant) := by
  have hact : machine.action? call.action = some addParticipant := by rw [h.action]; rfl
  rw [Machine.after_of_action hact]
  simp only [addParticipant, h.owner, h.tripId, h.participant, hthere, ne_eq, not_true_eq_false,
    if_false, h.new]
  rfl

private theorem get?_after_of_calm (hcreates : ∀ owner name, ¬Creates call key owner name)
    (hdeletes : ∀ trip, trips.get? key = some trip → ¬Deletes call key trip)
    (henrols : ∀ trip, trips.get? key = some trip →
      ∀ participant, ¬Enrols call key trip participant) :
    (machine.after trips call).get? key = trips.get? key := by
  refine Machine.after_keeps (P := fun after => Table.get? after key = trips.get? key)
    (fun act hact => ?_) rfl
  have hacts := acts hact call.id call.input trips
  generalize hended : act call.id call.input trips = ended at hacts
  generalize haction : call.action = action at hacts
  cases hacts with
  | declines _ => rfl
  | creates howner hname =>
    have hne : call.id ≠ key := fun heq => hcreates _ _ ⟨haction, heq, howner, hname⟩
    exact (Table.get?_insert ..).trans (if_neg hne)
  | @deletes other trip howner hkey hthere =>
    have hne : other ≠ key := by
      rintro rfl
      exact hdeletes trip hthere ⟨haction, howner, hkey⟩
    exact Table.get?_erase_of_ne trips hne
  | @joins other participant trip howner hkey hparticipant hthere hnew =>
    have hne : other ≠ key := by
      rintro rfl
      exact henrols trip hthere participant ⟨haction, howner, hkey, hnew, hparticipant⟩
    exact (Table.get?_insert ..).trans (if_neg hne)

structure Recorded (trips : TripPlanning) (ids : List String) : Prop where
  sorted : trips.Sorted
  used : ∀ key trip, trips.get? key = some trip → key ∈ ids
  enrolled : ∀ key trip, trips.get? key = some trip → trip.Enrolled

namespace Recorded

private theorem start : Recorded [] [] := ⟨.nil, nofun, nofun⟩

private theorem becomes (h : trips.Recorded ids) (hnew : call.id ∉ ids) (key : String) :
    Becomes call key (trips.get? key) ((machine.after trips call).get? key) := by
  cases hthere : trips.get? key with
  | none =>
    by_cases hcreates : ∃ owner name, Creates call key owner name
    · obtain ⟨owner, name, hcreates⟩ := hcreates
      rw [hcreates.after trips, Table.get?_insert_self]
      exact .created hcreates
    · have hcalm : ∀ owner name, ¬Creates call key owner name :=
        fun owner name hcreates' => hcreates ⟨owner, name, hcreates'⟩
      rw [get?_after_of_calm hcalm (by simp [hthere]) (by simp [hthere]), hthere]
      exact .lacking hcalm
  | some trip =>
    by_cases hdeletes : Deletes call key trip
    · rw [hdeletes.after hthere, Table.get?_erase_self h.sorted]
      exact .deleted hdeletes
    by_cases henrols : ∃ participant, Enrols call key trip participant
    · obtain ⟨participant, henrols⟩ := henrols
      rw [henrols.after hthere, Table.get?_insert_self]
      exact .joined henrols
    · have hcalm : ∀ participant, ¬Enrols call key trip participant :=
        fun participant henrols' => henrols ⟨participant, henrols'⟩
      have hcreates : ∀ owner name, ¬Creates call key owner name :=
        fun _ _ hcreates => hnew (hcreates.id ▸ h.used key trip hthere)
      rw [get?_after_of_calm hcreates, hthere]
      · exact .kept hdeletes hcalm
      · intro found hfound
        rw [hthere] at hfound
        exact Option.some.inj hfound ▸ hdeletes
      · intro found hfound
        rw [hthere] at hfound
        exact Option.some.inj hfound ▸ hcalm

private theorem sorted_after (h : trips.Sorted) (call : Machine.Call) :
    (machine.after trips call).Sorted := by
  refine Machine.after_keeps (fun act hact => ?_) h
  have hacts := acts hact call.id call.input trips
  generalize act call.id call.input trips = ended at hacts ⊢
  generalize call.action = action at hacts
  cases hacts with
  | declines _ => exact h
  | creates _ _ => exact h.insert _ _
  | deletes _ _ _ => exact Table.sorted_erase h _
  | joins _ _ _ _ _ => exact h.insert _ _

private theorem after (h : trips.Recorded ids) (hnew : call.id ∉ ids) :
    (machine.after trips call).Recorded (ids ++ [call.id]) := by
  have hentry : ∀ key trip, (machine.after trips call).get? key = some trip →
      key ∈ ids ++ [call.id] ∧ trip.Enrolled := by
    intro key trip hthere
    have hbecomes := h.becomes hnew key
    rw [hthere] at hbecomes
    generalize hfound : trips.get? key = found at hbecomes
    cases hbecomes with
    | created hcreates =>
      have howner := (Payload.text?_eq_some.mp hcreates.owner).2
      exact ⟨by simp [hcreates.id], .founded howner⟩
    | joined henrols =>
      have hnamed := (Payload.text?_eq_some.mp henrols.participant).2
      exact ⟨List.mem_append_left _ (h.used key _ hfound),
        (h.enrolled key _ hfound).withParticipant hnamed henrols.new⟩
    | kept _ _ => exact ⟨List.mem_append_left _ (h.used key _ hfound), h.enrolled key _ hfound⟩
  exact ⟨sorted_after h.sorted call, fun key trip hthere => (hentry key trip hthere).1,
    fun key trip hthere => (hentry key trip hthere).2⟩

private theorem keeps (h : trips.Recorded ids) {later : List Machine.Call}
    (hfresh : (ids ++ later.map Machine.Call.id).Nodup) {key : String} {before after : Trip}
    (hbefore : trips.get? key = some before)
    (hafter : (machine.run trips later).get? key = some after) : before.Keeps after := by
  let Still (trips : TripPlanning) (ids : List String) : Prop :=
    trips.Recorded ids ∧ key ∈ ids ∧
      ∀ trip, trips.get? key = some trip → before.Keeps trip
  have hstart : Still trips ids := by
    refine ⟨h, h.used key before hbefore, fun trip htrip => ?_⟩
    have hsame := hbefore.symm.trans htrip
    exact Option.some.inj hsame ▸ .refl before
  have hstep : ∀ trips ids (call : Machine.Call), Still trips ids → call.id ∉ ids →
      Still (machine.after trips call) (ids ++ [call.id]) := by
    rintro trips ids call ⟨hrecorded, hused, hkeeps⟩ hnew
    refine ⟨hrecorded.after hnew, List.mem_append_left _ hused, fun trip htrip => ?_⟩
    have hbecomes := hrecorded.becomes hnew key
    rw [htrip] at hbecomes
    generalize hfound : trips.get? key = found at hbecomes
    cases hbecomes with
    | created hcreates => exact absurd (hcreates.id ▸ hused) hnew
    | joined _ => exact (hkeeps _ hfound).trans (.withParticipant _ _)
    | kept _ _ => exact hkeeps _ hfound
  obtain ⟨-, -, hkeeps⟩ := Machine.run_fresh hstep hfresh hstart
  exact hkeeps after hafter

end Recorded

def Lists (trips : TripPlanning) (user : String) (input : Payload) : Prop :=
  ∃ found : List (String × Trip), (found.map Prod.fst).Nodup ∧
    (∀ key trip, (key, trip) ∈ found ↔
      trips.get? key = some trip ∧ user ∈ trip.participants) ∧
    getTripsByUser input trips = found.map tripRow

private theorem Recorded.lists (h : trips.Recorded ids) {user : String} {input : Payload}
    (huser : input.string? "user" = some user) : trips.Lists user input := by
  have hmem : ∀ key trip, (key, trip) ∈ trips ↔ trips.get? key = some trip :=
    fun key trip => ⟨Table.get?_of_mem h.sorted.nodup_keys, Table.mem_of_get?⟩
  cases hblank : Text.isAllBlank user with
  | true =>
    have htext : input.text? "user" = none := by simp [Payload.text?, huser, hblank]
    refine ⟨[], List.nodup_nil, fun key trip => ?_, by simp [getTripsByUser, htext]⟩
    simp only [List.not_mem_nil, false_iff, not_and]
    intro hthere hin
    have hnamed := (h.enrolled key trip hthere).named user hin
    exact Bool.false_ne_true (hnamed.symm.trans hblank)
  | false =>
    have htext : input.text? "user" = some user := by simp [Payload.text?, huser, hblank]
    refine ⟨trips.filter fun e => e.2.participants.contains user, ?_, fun key trip => ?_,
      by simp [getTripsByUser, htext]⟩
    · exact h.sorted.nodup_keys.sublist (List.filter_sublist.map _)
    · simp [hmem]

/-- How the trips of a state are protected, through any later calls. -/
structure Protected (trips : TripPlanning) (ids : List String) : Prop where
  enrolled : ∀ key trip, trips.get? key = some trip → trip.Enrolled
  becomes : ∀ call : Machine.Call, call.id ∉ ids → ∀ key,
    Becomes call key (trips.get? key) ((machine.after trips call).get? key)
  keeps : ∀ later : List Machine.Call, (ids ++ later.map Machine.Call.id).Nodup →
    ∀ key before after, trips.get? key = some before →
      (machine.run trips later).get? key = some after → before.Keeps after
  lists : ∀ user input, input.string? "user" = some user → trips.Lists user input

/-- Whatever calls are made, as long as no identifier is issued twice, trips belong to their owners
and keep their participants. -/
theorem protected_run (calls : List Machine.Call)
    (hfresh : (calls.map Machine.Call.id).Nodup) :
    (machine.run [] calls).Protected (calls.map Machine.Call.id) := by
  have hrecorded : (machine.run [] calls).Recorded (calls.map Machine.Call.id) := by
    have hnew : ([] ++ calls.map Machine.Call.id).Nodup := hfresh
    exact Machine.run_fresh (fun _ _ _ h hcall => h.after hcall) hnew .start
  exact
    { enrolled := hrecorded.enrolled
      becomes := fun _ hnew key => hrecorded.becomes hnew key
      keeps := fun _ hlater _ _ _ hbefore hafter => hrecorded.keeps hlater hbefore hafter
      lists := fun _ _ huser => hrecorded.lists huser }

private def twoOwners : List Machine.Call :=
  [⟨"t1", "create", [("name", .string "Lisbon"), ("owner", .string "ana")]⟩,
    ⟨"t2", "create", [("name", .string "Oslo"), ("owner", .string "ben")]⟩,
    ⟨"n1", "addParticipant", [("owner", .string "ana"), ("participant", .string "ben"),
      ("tripId", .string "t1")]⟩,
    ⟨"n2", "addParticipant", [("owner", .string "ana"), ("participant", .string "cleo"),
      ("tripId", .string "t2")]⟩,
    ⟨"n3", "delete", [("owner", .string "ben"), ("tripId", .string "t1")]⟩,
    ⟨"n4", "delete", [("owner", .string "ben"), ("tripId", .string "t2")]⟩]

theorem protected_run_twoOwners :
    (twoOwners.map Machine.Call.id).Nodup ∧
      (machine.run [] twoOwners).map (fun e => (e.1, e.2.owner, e.2.name, e.2.participants)) =
        [("t1", "ana", "Lisbon", ["ana", "ben"])] ∧
      (getTripsByUser [("user", .string "cleo")] (machine.run [] twoOwners)).length = 0 ∧
      (getTripsByUser [("user", .string "ben")] (machine.run [] twoOwners)).length = 1 ∧
      (machine.run [] twoOwners).Protected ["t1", "t2", "n1", "n2", "n3", "n4"] :=
  ⟨by decide, by decide +kernel, by decide +kernel, by decide +kernel,
    protected_run twoOwners (by decide)⟩

end TripPlanning

end Travel

end ConceptSync
