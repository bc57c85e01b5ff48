import ConceptSync.Proofs.Travel.Actions
import ConceptSync.Proofs.Travel.Resting

set_option autoImplicit false
set_option relaxedAutoImplicit false

/-!
Trips and itineraries under the operations of the application. The planner never takes an itinerary
from a trip and never gives it a second one, trips are added by one action alone, and all other
operations leave both concepts aside.
-/

namespace ConceptSync

namespace Travel

namespace ItineraryPlanner

variable {s : ItineraryPlanner} {id : String} {input : Payload}

def planned (s : ItineraryPlanner) : List String := s.itineraries.map fun e => e.2.trip

structure Plans (id : String) (s s' : ItineraryPlanner) : Prop where
  sorted : s'.itineraries.Sorted
  keys : ∀ key ∈ s'.itineraries.keys, key = id ∨ key ∈ s.itineraries.keys
  planned : s'.planned.Perm s.planned ∨
    ∃ trip, trip ∉ s.planned ∧ s'.planned.Perm (trip :: s.planned)

namespace Plans

private theorem of_same {s' : ItineraryPlanner} (hsorted : s.itineraries.Sorted)
    (h : s'.itineraries = s.itineraries) : Plans id s s' :=
  ⟨h ▸ hsorted, fun _ hkey => .inr (h ▸ hkey), .inl (by rw [ItineraryPlanner.planned, h]; rfl)⟩

private theorem of_change {key : String} {it changed : Itinerary} {events : Table String Event}
    (hsorted : s.itineraries.Sorted) (hthere : s.itineraries.get? key = some it)
    (htrip : changed.trip = it.trip) :
    Plans id s ⟨s.itineraries.insert key changed, events⟩ := by
  refine ⟨hsorted.insert _ _, fun other hother => .inr ?_, .inl (.of_eq ?_)⟩
  · have hkeys : (s.itineraries.insert key changed).keys = s.itineraries.keys :=
      hsorted.map_insert hthere rfl
    exact hkeys ▸ hother
  · exact hsorted.map_insert hthere htrip

private theorem subset {s' : ItineraryPlanner} (h : Plans id s s') : s.planned ⊆ s'.planned := by
  intro trip htrip
  rcases h.planned with hsame | ⟨_, _, hadded⟩
  · exact hsame.mem_iff.mpr htrip
  · exact hadded.mem_iff.mpr (List.mem_cons_of_mem _ htrip)

private theorem nodup {s' : ItineraryPlanner} (h : Plans id s s') (hnodup : s.planned.Nodup) :
    s'.planned.Nodup := by
  rcases h.planned with hsame | ⟨_, hnew, hadded⟩
  · exact hsame.nodup_iff.mpr hnodup
  · exact hadded.nodup_iff.mpr (List.nodup_cons.mpr ⟨hnew, hnodup⟩)

private theorem of_creation {trip : String} (hsorted : s.itineraries.Sorted)
    (hnew : id ∉ s.itineraries.keys) (hnone : s.ofTrip? trip = none) :
    Plans id s { s with itineraries := s.itineraries.insert id ⟨trip, false, []⟩ } := by
  have hperm := Table.perm_insert (⟨trip, false, []⟩ : Itinerary) hnew
  refine ⟨hsorted.insert _ _, fun key hkey => ?_, .inr ⟨trip, fun hmem => ?_, hperm.map _⟩⟩
  · exact List.mem_cons.mp ((hperm.map Prod.fst).mem_iff.mp hkey)
  · obtain ⟨e, he, htrip⟩ := List.mem_map.mp hmem
    exact absurd (beq_iff_eq.mpr htrip) (List.find?_eq_none.mp hnone e he)

end Plans

private theorem plans_of_act {action : String}
    {act : String → Payload → ItineraryPlanner → Payload × ItineraryPlanner}
    (hact : machine.action? action = some act) (input : Payload) (hsorted : s.itineraries.Sorted)
    (hnew : id ∉ s.itineraries.keys) : Plans id s (act id input s).2 := by
  have hacts := acts hact id input s
  generalize act id input s = ended at hacts ⊢
  cases hacts with
  | declines _ => exact .of_same hsorted rfl
  | finds _ _ => exact .of_same hsorted rfl
  | creates _ hnone => exact .of_creation hsorted hnew hnone
  | adds _ hthere _ => exact .of_change hsorted hthere rfl
  | approves _ _ _ => exact .of_same hsorted rfl
  | attaches _ _ _ => exact .of_same hsorted rfl
  | finalizes hthere _ => exact .of_change hsorted hthere rfl

theorem planned_create {trip : String} (h : input.text? "trip" = some trip) :
    trip ∈ (create id input s).2.planned := by
  unfold create
  simp only [h]
  split
  · next hfound =>
    have htrip := List.find?_some (show s.itineraries.find? _ = _ from hfound)
    exact List.mem_map.mpr ⟨_, List.mem_of_find?_eq_some hfound, beq_iff_eq.mp htrip⟩
  · exact List.mem_map.mpr ⟨_, Table.mem_of_get? (Table.get?_insert_self _ _ _), rfl⟩

end ItineraryPlanner

private theorem TripPlanning.keys_of_act {action : String}
    {act : String → Payload → TripPlanning → Payload × TripPlanning}
    (hact : machine.action? action = some act) (id : String) (input : Payload)
    (trips : TripPlanning) {key : String} (hkey : key ∈ (act id input trips).2.keys) :
    key ∈ trips.keys ∨ action = "create" ∧ key = id ∧
      (act id input trips).1 = .single "tripId" (.string id) := by
  have hacts := acts hact id input trips
  generalize act id input trips = ended at hacts hkey ⊢
  cases hacts with
  | declines _ => exact .inl hkey
  | creates _ _ =>
    obtain ⟨e, he, rfl⟩ := List.mem_map.mp hkey
    rcases Table.mem_insert he with rfl | hold
    · exact .inr ⟨rfl, rfl, rfl⟩
    · exact .inl (List.mem_map_of_mem hold)
  | deletes _ _ _ => exact .inl (((trips.erase_sublist _).map Prod.fst).subset hkey)
  | joins _ _ _ hthere _ =>
    left
    obtain ⟨e, he, rfl⟩ := List.mem_map.mp hkey
    rcases Table.mem_insert he with rfl | hold
    · exact Table.isSome_get?.mp (by rw [hthere]; rfl)
    · exact List.mem_map_of_mem hold

structure Aside (w w' : TravelWorld) : Prop where
  trips : w'.state.trips = w.state.trips
  planner : w'.state.planner = w.state.planner
  issued : w.issued ≤ w'.issued

namespace Aside

theorem refl (w : TravelWorld) : Aside w w := ⟨rfl, rfl, Nat.le_refl _⟩

end Aside

theorem Rests.aside {w w' : TravelWorld} (h : Rests w w') : Aside w w' := by
  obtain ⟨sessions, hstate⟩ := h.state
  exact ⟨by rw [hstate], by rw [hstate], h.issued⟩

/-- How performing an operation ends, told by what becomes of trips and itineraries. -/
inductive Performs (name : String) (input : Payload) (w : TravelWorld) :
    Outcome Payload × TravelWorld → Prop
  | aside {outcome : Outcome Payload} {w' : TravelWorld} : Aside w w' →
      Performs name input w (outcome, w')
  | trips {action : String} {act : String → Payload → TripPlanning → Payload × TripPlanning} :
      name = qualifiedName "TripPlanning" action →
      TripPlanning.machine.action? action = some act →
      Performs name input w (.ok (act w.nextId input w.state.trips).1,
        { w with
          issued := w.issued + 1
          state := { w.state with trips := (act w.nextId input w.state.trips).2 } })
  | planner {action : String}
      {act : String → Payload → ItineraryPlanner → Payload × ItineraryPlanner} :
      ItineraryPlanner.machine.action? action = some act →
      Performs name input w (.ok (act w.nextId input w.state.planner).1,
        { w with
          issued := w.issued + 1
          state := { w.state with planner := (act w.nextId input w.state.planner).2 } })

theorem App.IsBuilt.performs {config : AppConfig} {app : App} (happ : app.IsBuilt config)
    (id : ActionId) (input : Payload) (w : TravelWorld) :
    Performs (app.engine.registry.nameOf id) input w (app.engine.registry.perform id input w) := by
  rcases happ.perform_cases id with ⟨failure, hperform⟩ | ⟨c, hc, op, _, hname, hperform⟩
  · rw [hperform]
    exact .aside (.refl w)
  · rw [hname, hperform]
    have hdoes := Does.of_concept hc op.name input w
    rcases hended : c.perform op.name input w with ⟨outcome, after⟩
    rw [hended] at hdoes
    cases hdoes with
    | rests hrests => exact .aside hrests.aside
    | trips hconcept hact => exact .trips (congrArg (qualifiedName · op.name) hconcept) hact
    | planner _ hact => exact .planner hact
    | polls _ _ => exact .aside ⟨rfl, rfl, Nat.le_succ _⟩
    | costs _ _ => exact .aside ⟨rfl, rfl, Nat.le_succ _⟩

/-- The books of trips and itineraries: itineraries are told apart by identifiers that were issued,
no two of them are of one trip, and no trip has a blank name. -/
structure Filed (w : TravelWorld) : Prop where
  sorted : w.state.planner.itineraries.Sorted
  issued : ∀ id ∈ w.state.planner.itineraries.keys, ∃ n ≤ w.issued, id = (Uuid.issue .item n).text
  planned : w.state.planner.planned.Nodup
  named : ∀ trip ∈ w.state.trips.keys, Text.isAllBlank trip = false

namespace Filed

variable {w w' : TravelWorld} {name : String} {input : Payload} {outcome : Outcome Payload}

theorem start (wall : Int) : Filed (AppStage.start wall).world where
  sorted := .nil
  issued := nofun
  planned := .nil
  named := nofun

theorem aside (h : Filed w) (haside : Aside w w') : Filed w' where
  sorted := haside.planner ▸ h.sorted
  issued id hid := by
    have hold : w.HasIssued id := h.issued id (haside.planner ▸ hid)
    exact hold.mono haside.issued
  planned := haside.planner ▸ h.planned
  named := haside.trips ▸ h.named

private theorem nextId_new (h : Filed w) (hsupply : w.issued + 1 < Uuid.supply) :
    w.nextId ∉ w.state.planner.itineraries.keys := fun hmem =>
  World.not_hasIssued_nextId hsupply (h.issued _ hmem)

theorem performs (h : Filed w) (hperforms : Performs name input w (outcome, w'))
    (hsupply : w'.issued < Uuid.supply) : Filed w' := by
  cases hperforms with
  | aside haside => exact h.aside haside
  | @trips action act hname hact =>
    refine ⟨h.sorted, fun id hid => ?_, h.planned, fun trip htrip => ?_⟩
    · obtain ⟨n, hn, hid⟩ := h.issued id hid
      exact ⟨n, Nat.le_succ_of_le hn, hid⟩
    · rcases TripPlanning.keys_of_act hact _ _ _ htrip with hold | ⟨_, rfl, _⟩
      · exact h.named trip hold
      · exact Uuid.not_isAllBlank_text _
  | @planner action act hact =>
    have hplans := ItineraryPlanner.plans_of_act hact input h.sorted (h.nextId_new hsupply)
    refine ⟨hplans.sorted, fun id hid => ?_, hplans.nodup h.planned, h.named⟩
    rcases hplans.keys id hid with rfl | hold
    · exact ⟨_, Nat.le_refl _, rfl⟩
    · obtain ⟨n, hn, hid⟩ := h.issued id hold
      exact ⟨n, Nat.le_succ_of_le hn, hid⟩

end Filed

namespace Performs

variable {w w' : TravelWorld} {name : String} {input : Payload} {outcome : Outcome Payload}

theorem issued_le (h : Performs name input w (outcome, w')) : w.issued ≤ w'.issued := by
  cases h with
  | aside haside => exact haside.issued
  | trips _ _ => exact Nat.le_succ _
  | planner _ => exact Nat.le_succ _

theorem planned_subset (h : Performs name input w (outcome, w')) (hfiled : Filed w)
    (hsupply : w'.issued < Uuid.supply) : w.state.planner.planned ⊆ w'.state.planner.planned := by
  cases h with
  | aside haside => exact haside.planner ▸ List.Subset.refl _
  | trips _ _ => exact List.Subset.refl _
  | planner hact =>
    exact (ItineraryPlanner.plans_of_act hact input hfiled.sorted
      (hfiled.nextId_new hsupply)).subset

theorem trip_cases (h : Performs name input w (outcome, w')) {trip : String}
    (htrip : trip ∈ w'.state.trips.keys) : trip ∈ w.state.trips.keys ∨
      name = "TripPlanning.create" ∧ outcome = .ok (.single "tripId" (.string trip)) := by
  cases h with
  | aside haside => exact .inl (haside.trips ▸ htrip)
  | trips hname hact =>
    rcases TripPlanning.keys_of_act hact _ _ _ htrip with hold | ⟨rfl, rfl, htold⟩
    · exact .inl hold
    · exact .inr ⟨hname, congrArg Outcome.ok htold⟩
  | planner _ => exact .inl htrip

end Performs

end Travel

end ConceptSync
