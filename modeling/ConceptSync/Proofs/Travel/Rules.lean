import Mathlib.Data.List.Nodup
import ConceptSync.Engine.Step
import ConceptSync.Proofs.Registry
import ConceptSync.Proofs.Rule.Building
import ConceptSync.Proofs.Table
import ConceptSync.Travel.Rules.All

set_option autoImplicit false
set_option relaxedAutoImplicit false

/-!
The travel rules by what they do: which of them pass requests on, which answer requests, and which
wire concepts together. Each shape is read off the rule's definition once.
-/

namespace ConceptSync

namespace Travel

deriving instance DecidableEq for Handler, Lookup

/-- What a travel rule is for. -/
inductive Source where
  | requireUser
  | createItineraryForTrip
  | createPollForEvent
  | attachPollToEvent
  | createExpenseForApprovedEvent
  | passOn (h : Handler)
  | answerSuccess (h : Handler)
  | answerError (h : Handler)
  | lookup (l : Lookup)
  | getTripsByUser
  | unhandledRequest
deriving DecidableEq

namespace Source

def definition : Source → RuleDefinition TravelWorld
  | requireUser => Travel.requireUser
  | createItineraryForTrip => Travel.createItineraryForTrip
  | createPollForEvent => Travel.createPollForEvent
  | attachPollToEvent => Travel.attachPollToEvent
  | createExpenseForApprovedEvent => Travel.createExpenseForApprovedEvent
  | passOn h => h.passOn
  | answerSuccess h => h.answerSuccess
  | answerError h => h.answerError
  | lookup l => l.rule
  | getTripsByUser => Travel.getTripsByUser
  | unhandledRequest => Travel.unhandledRequest

def handling (h : Handler) : List Source := [passOn h, answerSuccess h, answerError h]

def earlier : List Source :=
  [requireUser, createItineraryForTrip, createPollForEvent, attachPollToEvent,
      createExpenseForApprovedEvent] ++
    handling createTrip ++ handling deleteTrip ++ [lookup getTripById, getTripsByUser] ++
    handling addParticipant ++ [lookup getParticipantsInTrip] ++
    handling createItinerary ++ handling addEvent ++ handling approveEvent ++
    handling finalizeItinerary ++ itineraryLookups.map lookup ++
    handling createPoll ++ handling addOption ++ handling closePoll ++
    handling addContribution ++ handling removeExpense ++ costLookups.map lookup

def all : List Source := earlier ++ [unhandledRequest]

theorem definition_all : all.map definition = rules := rfl

/-- A source is one of a known handler or lookup. -/
def Known : Source → Prop
  | passOn h | answerSuccess h | answerError h => h ∈ handlers
  | lookup l => l ∈ getTripById :: getParticipantsInTrip :: itineraryLookups ++ costLookups
  | _ => True

instance : DecidablePred Known
  | passOn h | answerSuccess h | answerError h => inferInstanceAs (Decidable (h ∈ handlers))
  | lookup l => inferInstanceAs
      (Decidable (l ∈ getTripById :: getParticipantsInTrip :: itineraryLookups ++ costLookups))
  | requireUser | createItineraryForTrip | createPollForEvent | attachPollToEvent
  | createExpenseForApprovedEvent | getTripsByUser | unhandledRequest => isTrue trivial

theorem known_of_mem : ∀ s ∈ all, s.Known := by decide +kernel

private theorem nodup_all : all.Nodup := by decide +kernel

end Source

def actsForUser (action : String) : Bool :=
  let (concept, name) := Text.splitQualified action
  ["TripPlanning", "ItineraryPlanner", "CostSplitting"].contains concept ||
    (concept == "Polling" && ["create", "addOption", "close"].contains name)

def identityFields : List String := ["owner", "actingUser", "userId"]

theorem actsForUser_of_handler :
    ∀ h ∈ handlers, actsForUser (qualifiedName h.concept h.action) = true := by decide +kernel

section Patterns

variable {p : Pattern}

theorem action_withInputs (p : Pattern) (fields : List (String × Var)) :
    (withInputs p fields).action = p.action ∧ (withInputs p fields).output = p.output ∧
      (withInputs p fields).outcome = p.outcome := by
  induction fields generalizing p with
  | nil => exact ⟨rfl, rfl, rfl⟩
  | cons f rest ih => exact ih (p.withInput f.1 (.var f.2))

theorem action_withOutputs (p : Pattern) (fields : List (String × Var)) :
    (withOutputs p fields).action = p.action ∧ (withOutputs p fields).input = p.input := by
  induction fields generalizing p with
  | nil => exact ⟨rfl, rfl⟩
  | cons f rest ih => exact ih (p.withOutput f.1 (.var f.2))

theorem mem_withInputs {fields : List (String × Var)} {e : String × Term}
    (h : e ∈ (withInputs p fields).input) :
    e ∈ p.input ∨ ∃ v, (e.1, v) ∈ fields ∧ e.2 = .var v := by
  induction fields generalizing p with
  | nil => exact .inl h
  | cons f rest ih =>
    rcases ih h with hold | ⟨v, hv, heq⟩
    · rcases Table.mem_insert hold with rfl | hold
      · exact .inr ⟨f.2, List.mem_cons_self .., rfl⟩
      · exact .inl hold
    · exact .inr ⟨v, List.mem_cons_of_mem _ hv, heq⟩

theorem perm_withInputs {fields : List (String × Var)}
    (hnodup : (fields.map Prod.fst).Nodup) (hnew : ∀ f ∈ fields, f.1 ∉ p.input.keys) :
    (withInputs p fields).input.Perm (fields.map (fun f => (f.1, .var f.2)) ++ p.input) := by
  induction fields generalizing p with
  | nil => exact .refl _
  | cons f rest ih =>
    obtain ⟨hf, hrest⟩ := List.nodup_cons.mp hnodup
    have hperm := Table.perm_insert (.var f.2) (hnew f (List.mem_cons_self ..))
    refine (ih hrest fun g hg hkey => ?_).trans ((hperm.append_left _).trans ?_)
    · have hkey := (hperm.map Prod.fst).mem_iff.mp hkey
      rcases List.mem_cons.mp hkey with heq | hold
      · exact hf (heq ▸ List.mem_map_of_mem hg)
      · exact hnew g (List.mem_cons_of_mem _ hg) hold
    · exact List.perm_middle

end Patterns

section Building

variable {registry : Registry TravelWorld} {β : Type} {Q : β → Prop}

theorem ensures_actionPattern {concept action : String} {f : Pattern → Builder β}
    (hf : ∀ id, registry.action concept action = .ok id → (f (.of id)).Ensures Q) :
    (actionPattern registry concept action >>= f).Ensures Q := by
  refine .bind (P := fun p => ∃ id, registry.action concept action = .ok id ∧ p = .of id) ?_ ?_
  · exact .bind (.ofExcept _) fun id hid => .pure ⟨id, hid, rfl⟩
  · rintro _ ⟨id, hid, rfl⟩
    exact hf id hid

theorem ensures_respond {f : Pattern → Builder β}
    (hf : ∀ id, registry.action "Requesting" "respond" = .ok id → (f (.of id)).Ensures Q) :
    (respond registry >>= f).Ensures Q :=
  ensures_actionPattern hf

theorem ensures_requestTo {path : String} {f : Pattern → Builder β}
    (hf : ∀ id, registry.action "Requesting" "request" = .ok id →
      (f ((Pattern.of id).withInput "path" (.literal (.string path)))).Ensures Q) :
    (requestTo registry path >>= f).Ensures Q := by
  refine .bind (P := fun p => ∃ id, registry.action "Requesting" "request" = .ok id ∧
    p = (Pattern.of id).withInput "path" (.literal (.string path))) ?_ ?_
  · exact ensures_actionPattern fun id hid => .pure ⟨id, hid, rfl⟩
  · rintro _ ⟨id, hid, rfl⟩
    exact hf id hid

theorem ensures_queryOf {concept query : String} {f : QueryHandle TravelWorld → Builder β}
    (hf : ∀ q, registry.query concept query = .ok q → (f q).Ensures Q) :
    (queryOf registry concept query >>= f).Ensures Q :=
  .bind (.ofExcept _) hf

end Building

variable {registry : Registry TravelWorld} {rule : Rule TravelWorld}

/-- A rule that passes requests on: its variables, and its clauses in terms of them. -/
structure PassesOn (registry : Registry TravelWorld) (h : Handler) (rule : Rule TravelWorld)
    (user : Var) (given : List Var) (request action : ActionId) : Prop where
  listens : registry.action "Requesting" "request" = .ok request
  invokes : registry.action h.concept h.action = .ok action
  nodup : (user :: given).Nodup
  length : given.length = h.given.length
  whenPatterns : rule.clauses.whenPatterns =
    [withInputs ((Pattern.of request).withInput "path" (.literal (.string h.path)))
      (("user", user) :: h.given.zip given)]
  whereClause : rule.clauses.whereClause = some (whenPresent user)
  thenPatterns : rule.clauses.thenPatterns =
    [withInputs (.of action) ((h.actor.toList.map fun field => (field, user)) ++ h.given.zip given)]

theorem passesOn_of_builds {h : Handler} (hgiven : ("user" :: h.given).Nodup)
    (hbuilds : h.passOn.Builds registry rule) :
    ∃ user given request action, PassesOn registry h rule user given request action := by
  obtain ⟨next, naming, hbuild⟩ := hbuilds
  generalize hclauses : rule.clauses = clauses at hbuild
  revert hclauses
  refine Builder.Ensures.of_fresh (b := clauses) hgiven hbuild fun user given hnodup hlength => ?_
  refine ensures_requestTo fun request hrequest => ?_
  refine ensures_actionPattern fun action haction => .pure fun hclauses => ?_
  refine ⟨user, given, request, action, hrequest, haction, hnodup, hlength, ?_, ?_, ?_⟩
  · exact congrArg Clauses.whenPatterns hclauses
  · exact congrArg Clauses.whereClause hclauses
  · exact congrArg Clauses.thenPatterns hclauses

def Answers (registry : Registry TravelWorld) (rule : Rule TravelWorld) : Prop :=
  ∃ p, rule.clauses.thenPatterns = [p] ∧ registry.nameOf p.action = "Requesting.respond"

def ServesRoute (path : String) (rule : Rule TravelWorld) : Prop :=
  ∃ p, rule.clauses.whenPatterns = [p] ∧ ("path", Term.literal (.string path)) ∈ p.input

def Gates (rule : Rule TravelWorld) : Prop :=
  ∃ p user, rule.clauses.whenPatterns = [p] ∧ ("user", Term.var user) ∈ p.input ∧
    ∀ f : Frame, f.isPresent user = true → ∀ world, (refine rule [f] world).1 = .frames []

/-- A rule that wires concepts together: actions performed for users lead to actions that no
request opens and that are given no acting user. -/
structure Wires (registry : Registry TravelWorld) (rule : Rule TravelWorld) : Prop where
  whenPatterns : ∀ p ∈ rule.clauses.whenPatterns, actsForUser (registry.nameOf p.action) = true
  thenPatterns : ∀ p ∈ rule.clauses.thenPatterns,
    registry.nameOf p.action ≠ "Requesting.request" ∧ ∀ e ∈ p.input, e.1 ∉ identityFields

private theorem answers_of_action {p : Pattern} {id : ActionId}
    (hid : registry.action "Requesting" "respond" = .ok id)
    (hthen : rule.clauses.thenPatterns = [p]) (haction : p.action = id) :
    Answers registry rule := by
  refine ⟨p, hthen, ?_⟩
  rw [haction, Registry.nameOf_of_action hid]
  rfl

private theorem gates_of_builds (hbuilds : requireUser.Builds registry rule) :
    Answers registry rule ∧ Gates rule := by
  refine hbuilds.elim ?_
  refine .var fun request => .var fun path => .var fun user => ?_
  refine ensures_actionPattern fun opened hopened => ensures_respond fun answer hanswer => .pure ?_
  intro rule hclauses
  constructor
  · exact answers_of_action hanswer (by rw [hclauses]) rfl
  · refine ⟨_, user, by rw [hclauses], ?_, ?_⟩
    · rw [(action_withOutputs _ _).2,
        (perm_withInputs (by simp) (by simp [Pattern.of, Table.keys])).mem_iff]
      simp
    · intro f hf world
      have hnone :
          [f].filter (fun f => (f.text? path).any requiresUser && !f.isPresent user) = [] := by
        simp [hf]
      simp only [refine, hclauses, hnone]
      rfl

private theorem answers_answerSuccess {h : Handler}
    (hbuilds : h.answerSuccess.Builds registry rule) :
    Answers registry rule ∧ 2 ≤ rule.clauses.whenPatterns.length := by
  refine hbuilds.elim ?_
  refine .var fun request => .vars fun vars => ensures_requestTo fun opened hopened => ?_
  refine ensures_actionPattern fun action haction => ensures_respond fun answer hanswer => .pure ?_
  intro rule hclauses
  constructor
  · exact answers_of_action hanswer (by rw [hclauses]) (action_withInputs _ _).1
  · rw [hclauses]
    exact Nat.le_refl 2

private theorem answers_answerError {h : Handler} (hbuilds : h.answerError.Builds registry rule) :
    Answers registry rule ∧ 2 ≤ rule.clauses.whenPatterns.length := by
  refine hbuilds.elim ?_
  refine .var fun request => .var fun error => ensures_requestTo fun opened hopened => ?_
  refine ensures_actionPattern fun action haction => ensures_respond fun answer hanswer => .pure ?_
  intro rule hclauses
  constructor
  · exact answers_of_action hanswer (by rw [hclauses]) rfl
  · rw [hclauses]
    exact Nat.le_refl 2

theorem path_mem_input {id : ActionId} {path field : String} {v : Var}
    {outputs : List (String × Var)} (hfield : field ≠ "path") :
    ("path", Term.literal (.string path)) ∈
      (withOutputs (withInputs ((Pattern.of id).withInput "path" (.literal (.string path)))
        [(field, v)]) outputs).input := by
  rw [(action_withOutputs _ _).2]
  refine (perm_withInputs (by simp) ?_).mem_iff.mpr ?_
  · simp [Pattern.of, Pattern.withInput, Table.insert, Table.keys, hfield]
  · simp [Pattern.of, Pattern.withInput, Table.insert]

private theorem servesRoute_of_builds {l : Lookup} (hkey : l.key ≠ "path")
    (hbuilds : l.rule.Builds registry rule) :
    Answers registry rule ∧ ServesRoute l.path rule := by
  refine hbuilds.elim ?_
  refine .var fun request => .var fun key => .var fun answered => ?_
  refine ensures_queryOf fun query _ => ensures_requestTo fun opened hopened => ?_
  refine ensures_respond fun answer hanswer => .pure ?_
  intro rule hclauses
  constructor
  · exact answers_of_action hanswer (by rw [hclauses]) rfl
  · exact ⟨_, by rw [hclauses], path_mem_input hkey⟩

private theorem servesRoute_getTripsByUser (hbuilds : getTripsByUser.Builds registry rule) :
    Answers registry rule ∧ ServesRoute "/TripPlanning/_getTripsByUser" rule := by
  refine hbuilds.elim ?_
  refine .var fun request => .var fun user => .var fun trips => ?_
  refine ensures_queryOf fun query _ => ensures_requestTo fun opened hopened => ?_
  refine ensures_respond fun answer hanswer => .pure ?_
  intro rule hclauses
  constructor
  · exact answers_of_action hanswer (by rw [hclauses]) rfl
  · exact ⟨_, by rw [hclauses], path_mem_input (by decide)⟩

private theorem answers_unhandledRequest (hbuilds : unhandledRequest.Builds registry rule) :
    Answers registry rule := by
  refine hbuilds.elim ?_
  refine .var fun request => .var fun path => .var fun error => ensures_queryOf fun query _ => ?_
  refine ensures_actionPattern fun opened hopened => ensures_respond fun answer hanswer => .pure ?_
  intro rule hclauses
  exact answers_of_action hanswer (by rw [hclauses]) rfl

theorem acts_of_action {p : Pattern} {concept name : String} {id : ActionId}
    (hid : registry.action concept name = .ok id) (haction : p.action = id)
    (hacts : actsForUser (qualifiedName concept name) = true) :
    actsForUser (registry.nameOf p.action) = true := by
  rw [haction, Registry.nameOf_of_action hid]
  exact hacts

private theorem wired_of_action {concept name : String} {id : ActionId}
    {fields : List (String × Var)} (hid : registry.action concept name = .ok id)
    (hname : qualifiedName concept name ≠ "Requesting.request")
    (hfields : ∀ f ∈ fields, f.1 ∉ identityFields) :
    ∀ p ∈ [withInputs (.of id) fields], registry.nameOf p.action ≠ "Requesting.request" ∧
      ∀ e ∈ p.input, e.1 ∉ identityFields := by
  rw [List.forall_mem_singleton, (action_withInputs _ _).1]
  constructor
  · rw [show (Pattern.of id).action = id from rfl, Registry.nameOf_of_action hid]
    exact hname
  · intro e he
    rcases mem_withInputs he with hold | ⟨v, hv, _⟩
    · cases hold
    · exact hfields _ hv

private theorem wires_createItineraryForTrip
    (hbuilds : createItineraryForTrip.Builds registry rule) : Wires registry rule := by
  refine hbuilds.elim ?_
  refine .var fun tripId => ensures_actionPattern fun created hcreated => ?_
  refine ensures_actionPattern fun create hcreate => .pure ?_
  intro rule hclauses
  constructor
  · rw [hclauses, List.forall_mem_singleton]
    exact acts_of_action hcreated (action_withOutputs _ _).1 (by decide)
  · rw [hclauses]
    exact wired_of_action hcreate (by decide) (by simp [identityFields])

private theorem wires_createPollForEvent (hbuilds : createPollForEvent.Builds registry rule) :
    Wires registry rule := by
  refine hbuilds.elim ?_
  refine .var fun event => .var fun eventDoc => .var fun itinerary => .var fun itineraryDoc => ?_
  refine .var fun tripId => .var fun tripDoc => .var fun pollName => .var fun tripOwner => ?_
  refine ensures_queryOf fun eventById _ => ensures_queryOf fun itineraryById _ => ?_
  refine ensures_queryOf fun tripById _ => ?_
  refine ensures_actionPattern fun added hadded => ?_
  refine ensures_actionPattern fun create hcreate => .pure ?_
  intro rule hclauses
  constructor
  · rw [hclauses, List.forall_mem_singleton]
    exact acts_of_action hadded (action_withOutputs _ _).1 (by decide)
  · rw [hclauses]
    exact wired_of_action hcreate (by decide) (by simp [identityFields])

private theorem wires_attachPollToEvent (hbuilds : attachPollToEvent.Builds registry rule) :
    Wires registry rule := by
  refine hbuilds.elim ?_
  refine .var fun event => .var fun poll => ensures_actionPattern fun added hadded => ?_
  refine ensures_actionPattern fun created hcreated => ?_
  refine ensures_actionPattern fun attach hattach => .pure ?_
  intro rule hclauses
  constructor
  · rw [hclauses, List.forall_mem_cons, List.forall_mem_singleton]
    exact ⟨acts_of_action hadded (action_withOutputs _ _).1 (by decide),
      acts_of_action hcreated (action_withOutputs _ _).1 (by decide)⟩
  · rw [hclauses]
    exact wired_of_action hattach (by decide) (by simp [identityFields])

private theorem wires_createExpenseForApprovedEvent
    (hbuilds : createExpenseForApprovedEvent.Builds registry rule) : Wires registry rule := by
  refine hbuilds.elim ?_
  refine .var fun event => .var fun eventDoc => .var fun cost => ensures_queryOf fun byId _ => ?_
  refine ensures_actionPattern fun approve happrove => ?_
  refine ensures_actionPattern fun create hcreate => .pure ?_
  intro rule hclauses
  constructor
  · rw [hclauses, List.forall_mem_singleton]
    exact acts_of_action happrove rfl (by decide)
  · rw [hclauses]
    exact wired_of_action hcreate (by decide) (by simp [identityFields])

def Source.Shape (registry : Registry TravelWorld) (rule : Rule TravelWorld) : Source → Prop
  | passOn h => ∃ user given request action, PassesOn registry h rule user given request action
  | requireUser => Answers registry rule ∧ Gates rule
  | answerSuccess _ | answerError _ =>
    Answers registry rule ∧ 2 ≤ rule.clauses.whenPatterns.length
  | lookup l => Answers registry rule ∧ ServesRoute l.path rule
  | getTripsByUser => Answers registry rule ∧ ServesRoute "/TripPlanning/_getTripsByUser" rule
  | unhandledRequest => Answers registry rule
  | createItineraryForTrip | createPollForEvent | attachPollToEvent
  | createExpenseForApprovedEvent => Wires registry rule

/-- Every travel rule has the shape of its source. -/
theorem Source.shape_of_builds {s : Source} (hknown : s.Known)
    (hbuilds : s.definition.Builds registry rule) : s.Shape registry rule := by
  cases s with
  | requireUser => exact gates_of_builds hbuilds
  | createItineraryForTrip => exact wires_createItineraryForTrip hbuilds
  | createPollForEvent => exact wires_createPollForEvent hbuilds
  | attachPollToEvent => exact wires_attachPollToEvent hbuilds
  | createExpenseForApprovedEvent => exact wires_createExpenseForApprovedEvent hbuilds
  | passOn h =>
    have hgiven : ∀ h ∈ handlers, ("user" :: h.given).Nodup := by decide
    exact passesOn_of_builds (hgiven h hknown) hbuilds
  | answerSuccess h => exact answers_answerSuccess hbuilds
  | answerError h => exact answers_answerError hbuilds
  | lookup l =>
    have hkey : ∀ l ∈ getTripById :: getParticipantsInTrip :: itineraryLookups ++ costLookups,
        l.key ≠ "path" := by decide
    exact servesRoute_of_builds (hkey l hknown) hbuilds
  | getTripsByUser => exact servesRoute_getTripsByUser hbuilds
  | unhandledRequest => exact answers_unhandledRequest hbuilds

theorem shapes_of_instantiateAll {next : Nat} {built : List (Rule TravelWorld)}
    (h : Rule.instantiateAll registry rules next = .ok built) :
    List.Forall₂ (fun s rule => s.Shape registry rule) Source.all built := by
  have hbuilds := Rule.builds_of_instantiateAll h
  rw [← Source.definition_all, List.forall₂_map_left_iff] at hbuilds
  have hknown := (List.forall₂_and_left _ _).mpr ⟨Source.known_of_mem, hbuilds⟩
  exact hknown.imp fun _ _ hs => Source.shape_of_builds hs.1 hs.2

theorem exists_source {R : Source → Rule TravelWorld → Prop} {sources : List Source}
    {built : List (Rule TravelWorld)} (h : List.Forall₂ R sources built) :
    ∀ rule ∈ built, ∃ s ∈ sources, R s rule := by
  intro rule hrule
  obtain ⟨k, hk, rfl⟩ := List.mem_iff_getElem.mp hrule
  have hk' : k < sources.length := h.length_eq ▸ hk
  exact ⟨sources[k], List.getElem_mem hk', h.get hk' hk⟩

theorem split_of_forall₂ {α β : Type} {R : α → β → Prop} {xs ys : List α} {x : α}
    {zs : List β} (h : List.Forall₂ R (xs ++ x :: ys) zs) :
    ∃ before z after, zs = before ++ z :: after ∧ List.Forall₂ R xs before ∧ R x z ∧
      List.Forall₂ R ys after := by
  induction xs generalizing zs with
  | nil =>
    obtain ⟨z, after, hz, hafter, rfl⟩ := List.forall₂_cons_left_iff.mp h
    exact ⟨[], z, after, rfl, .nil, hz, hafter⟩
  | cons first rest ih =>
    obtain ⟨w, later, hw, hlater, rfl⟩ := List.forall₂_cons_left_iff.mp h
    obtain ⟨before, z, after, rfl, hbefore, hz, hafter⟩ := ih hlater
    exact ⟨w :: before, z, after, rfl, .cons hw hbefore, hz, hafter⟩

theorem Source.exists_rule {R : Source → Rule TravelWorld → Prop} {built : List (Rule TravelWorld)}
    (h : List.Forall₂ R all built) {s : Source} (hs : s ∈ all) :
    ∃ before rule after, built = before ++ rule :: after ∧ R s rule ∧
      (∀ r ∈ before, ∃ t ∈ earlier, t ≠ s ∧ R t r) ∧ ∀ r ∈ after, ∃ t ∈ all, t ≠ s ∧ R t r := by
  obtain ⟨first, last, hsplit⟩ := List.append_of_mem hs
  have hnodup := nodup_all
  rw [hsplit] at h hnodup
  obtain ⟨_, hlast, hdistinct⟩ := List.nodup_append.mp hnodup
  obtain ⟨before, rule, after, hbuilt, hbefore, hrule, hafter⟩ := split_of_forall₂ h
  refine ⟨before, rule, after, hbuilt, hrule, fun r hr => ?_, fun r hr => ?_⟩
  · obtain ⟨t, ht, hr⟩ := exists_source hbefore r hr
    refine ⟨t, ?_, hdistinct t ht s (List.mem_cons_self ..), hr⟩
    have hdrop : earlier = first ++ (s :: last).dropLast := by
      rw [← List.dropLast_append_of_ne_nil (List.cons_ne_nil _ _), ← hsplit, all,
        List.dropLast_concat]
    exact hdrop ▸ List.mem_append_left _ ht
  · obtain ⟨t, ht, hr⟩ := exists_source hafter r hr
    refine ⟨t, hsplit ▸ List.mem_append_right _ (List.mem_cons_of_mem _ ht), ?_, hr⟩
    rintro rfl
    exact (List.nodup_cons.mp hlast).1 ht

end Travel

end ConceptSync
