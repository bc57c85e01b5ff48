import ConceptSync.Proofs.Travel.Operations

set_option autoImplicit false
set_option relaxedAutoImplicit false

/-!
The conduct of the travel rules towards requests. Each of them calls operations in the background or
answers the request for whose opening it waits, and the last one falls back for all others.
-/

namespace ConceptSync

namespace Travel

section Patterns

variable {p : Pattern}

private theorem get?_withInputs_of_not_mem {fields : List (String × Var)} {field : String}
    (h : field ∉ fields.map Prod.fst) :
    (withInputs p fields).input.get? field = p.input.get? field := by
  induction fields generalizing p with
  | nil => rfl
  | cons f rest ih =>
    obtain ⟨hne, hrest⟩ := not_or.mp (mt List.mem_cons.mpr h)
    refine (ih hrest).trans ?_
    simp only [Pattern.withInput, Table.get?_insert]
    exact if_neg (Ne.symm hne)

theorem get?_withInputs_self {fields : List (String × Var)} {field : String} {v : Var}
    (h : field ∉ fields.map Prod.fst) :
    (withInputs p ((field, v) :: fields)).input.get? field = some (.var v) :=
  (get?_withInputs_of_not_mem h).trans (Table.get?_insert_self _ _ _)

end Patterns

section Refinements

variable {v : Var}

private theorem said_of_insert {f : Frame} {found : Var} (hne : found ≠ v) (bound : Value) :
    ∀ value, f.get? v = some value → (Table.insert f found bound).get? v = some value := by
  intro value hvalue
  rw [Table.get?_insert, if_neg hne]
  exact hvalue

private theorem Lookup.keeps_refine {call : Payload → Effect TravelWorld (List Payload)}
    (hcall : ∀ args, (call args).Asks fun _ => True) (input output : Template) {found : Var}
    (hne : found ≠ v) : Refinement.Keeps v (refine call input output found) := by
  intro frames
  induction frames with
  | nil => exact .pure (by simp [Frame.Kept])
  | cons f rest ih =>
    refine .bind (Frame.bridge_asks input output hcall [f]) fun rows hrows => ?_
    refine .bind ih fun later hlater => .pure (Frame.kept_append (fun g hg => ?_) hlater)
    split at hg
    · obtain rfl := List.mem_singleton.mp hg
      exact said_of_insert hne _
    · obtain ⟨g', hg', hextends⟩ := hrows g hg
      obtain rfl := List.mem_singleton.mp hg'
      exact hextends v

private theorem getTripsByUser.keeps_collect {q : QueryHandle TravelWorld}
    (hcall : ∀ input, (q.call input).Asks fun _ => True) (user : Var) {trips : Var}
    (hne : trips ≠ v) : Refinement.Keeps v (collect user trips q) := by
  intro frames
  induction frames with
  | nil => exact .pure (by simp [Frame.Kept])
  | cons f rest ih =>
    refine .bind (hcall _) fun rows _ => .bind ih fun later hlater => .pure ?_
    change Frame.Kept v (f :: rest) ([Table.insert f trips _] ++ later)
    refine Frame.kept_append (fun g hg => ?_) hlater
    obtain rfl := List.mem_singleton.mp hg
    exact said_of_insert hne _

private theorem unhandledRequest.keeps_unanswered {q : QueryHandle TravelWorld}
    (hcall : ∀ input, (q.call input).Asks fun _ => True) (request path : Var) {error : Var}
    (hne : error ≠ v) : Refinement.Keeps v (unanswered request path error q) := by
  intro frames
  induction frames with
  | nil => exact .pure (by simp [Frame.Kept])
  | cons f rest ih =>
    refine .bind (hcall _) fun rows _ => .bind ih fun later hlater => .pure ?_
    split
    · change Frame.Kept v (f :: rest) ([Table.insert f error _] ++ later)
      refine Frame.kept_append (fun g hg => ?_) hlater
      obtain rfl := List.mem_singleton.mp hg
      exact said_of_insert hne _
    · change Frame.Kept v (f :: rest) ([] ++ later)
      exact Frame.kept_append (by simp) hlater

end Refinements

variable {registry : Registry TravelWorld} {rule : Rule TravelWorld}

section Answers

variable {opened answer : Pattern} {others : List Pattern} {request : Var}
  {clause? : Option (Refinement TravelWorld)} {opening respond : ActionId}

private theorem replies_of_clauses
    (hclauses : rule.clauses =
      ⟨withOutputs opened [("request", request)] :: others, clause?, [answer]⟩)
    (hopening : registry.action "Requesting" "request" = .ok opening)
    (hopened : opened.action = opening)
    (hrespond : registry.action "Requesting" "respond" = .ok respond)
    (hanswer : answer.action = respond)
    (hnames : answer.input.get? "request" = some (.var request))
    (hstatus : answer.input.get? "status" = none ∨
      ∃ code : Int, code ≠ 504 ∧ answer.input.get? "status" = some (.literal (.ofInt code)))
    (hkeeps : ∀ clause ∈ clause?, Refinement.Keeps request clause) :
    rule.Replies registry answer request where
  answers := by
    rw [hanswer, Registry.nameOf_of_action hrespond]
    rfl
  names := hnames
  status := hstatus
  waits := by
    rw [hclauses]
    refine ⟨_, List.mem_cons_self .., ?_, Table.mem_of_get? (Table.get?_insert_self _ _ _)⟩
    rw [(action_withOutputs _ _).1, hopened, Registry.nameOf_of_action hopening]
    rfl
  keeps := by
    rw [hclauses]
    exact hkeeps

private theorem orderly_of_replies (hthen : rule.clauses.thenPatterns = [answer])
    (h : rule.Replies registry answer request) : rule.Orderly registry where
  reads clause hclause := (h.keeps clause hclause).reads
  invokes p hp := by
    rw [hthen] at hp
    obtain rfl := List.mem_singleton.mp hp
    exact .inr ⟨request, h⟩

private theorem orderly_requireUser (hbuilds : requireUser.Builds registry rule) :
    rule.Orderly registry := by
  refine hbuilds.elim ?_
  refine .var fun request => .var fun path => .var fun user => ?_
  refine ensures_actionPattern fun opening hopening => ?_
  refine ensures_respond fun respond hrespond => .pure ?_
  intro rule hclauses
  refine orderly_of_replies (by rw [hclauses]) (replies_of_clauses hclauses hopening
    (action_withInputs _ _).1 hrespond rfl ?_ ?_ ?_)
  · simp [Pattern.withInput, withInputs, Table.get?_insert]
  · exact .inr ⟨401, by decide, Table.get?_insert_self _ _ _⟩
  · intro clause hclause
    cases hclause
    exact Refinement.keeps_filter _ _

private theorem orderly_answerSuccess {h : Handler}
    (hfields : ∀ field ∈ h.answers.map Prod.fst, field ≠ "request" ∧ field ≠ "status")
    (hbuilds : h.answerSuccess.Builds registry rule) : rule.Orderly registry := by
  refine hbuilds.elim ?_
  refine .var fun request => .vars fun vars => ensures_requestTo fun opening hopening => ?_
  refine ensures_actionPattern fun action haction => ?_
  refine ensures_respond fun respond hrespond => .pure ?_
  intro rule hclauses
  have hnew : ∀ field ∈ ((h.answers.map Prod.fst).zip vars).map Prod.fst,
      field ≠ "request" ∧ field ≠ "status" := by
    intro field hfield
    obtain ⟨e, he, rfl⟩ := List.mem_map.mp hfield
    exact hfields _ (List.of_mem_zip he).1
  refine orderly_of_replies (by rw [hclauses]) (replies_of_clauses hclauses hopening rfl hrespond
    (action_withInputs _ _).1 ?_ (.inl ?_) (by simp))
  · exact get?_withInputs_self fun hmem => (hnew _ hmem).1 rfl
  · refine get?_withInputs_of_not_mem fun hmem => ?_
    rcases List.mem_cons.mp hmem with heq | hmem
    · exact absurd heq (by simp)
    · exact (hnew _ hmem).2 rfl

private theorem orderly_answerError {h : Handler} (hbuilds : h.answerError.Builds registry rule) :
    rule.Orderly registry := by
  refine hbuilds.elim ?_
  refine .var fun request => .var fun error => ensures_requestTo fun opening hopening => ?_
  refine ensures_actionPattern fun action haction => ?_
  refine ensures_respond fun respond hrespond => .pure ?_
  intro rule hclauses
  refine orderly_of_replies (by rw [hclauses]) (replies_of_clauses hclauses hopening rfl hrespond
    (action_withInputs _ _).1 ?_ (.inl ?_) (by simp))
  · exact get?_withInputs_self (by simp)
  · exact get?_withInputs_of_not_mem (by simp)

private theorem orderly_lookup (hoperates : Operates registry) {l : Lookup}
    (hquery : l.query ≠ "_awaitResponse") (hanswer : l.answer ≠ "request" ∧ l.answer ≠ "status")
    (hbuilds : l.rule.Builds registry rule) : rule.Orderly registry := by
  refine hbuilds.elim_three rfl (by decide) fun request given found _ hfound _ => ?_
  refine ensures_queryOf fun q hq => ensures_requestTo fun opening hopening => ?_
  refine ensures_respond fun respond hrespond => .pure ?_
  intro rule hclauses
  refine orderly_of_replies (by rw [hclauses]) (replies_of_clauses hclauses hopening
    (action_withInputs _ _).1 hrespond (action_withInputs _ _).1 ?_ (.inl ?_) ?_)
  · exact get?_withInputs_self (by simpa using Ne.symm hanswer.1)
  · exact get?_withInputs_of_not_mem (by simpa using Ne.symm hanswer.2)
  · intro clause hclause
    cases hclause
    exact Lookup.keeps_refine (hoperates.asks _ _ q hq hquery) _ _ hfound

private theorem orderly_getTripsByUser (hoperates : Operates registry)
    (hbuilds : getTripsByUser.Builds registry rule) : rule.Orderly registry := by
  refine hbuilds.elim_three rfl (by decide) fun request user trips _ htrips _ => ?_
  refine ensures_queryOf fun q hq => ensures_requestTo fun opening hopening => ?_
  refine ensures_respond fun respond hrespond => .pure ?_
  intro rule hclauses
  refine orderly_of_replies (by rw [hclauses]) (replies_of_clauses hclauses hopening
    (action_withInputs _ _).1 hrespond (action_withInputs _ _).1 ?_ (.inl ?_) ?_)
  · exact get?_withInputs_self (by simp)
  · exact get?_withInputs_of_not_mem (by simp)
  · intro clause hclause
    cases hclause
    have hkeeps : Refinement.Keeps request (getTripsByUser.collect user trips q) :=
      getTripsByUser.keeps_collect (hoperates.asks _ _ q hq (by decide)) user htrips
    exact hkeeps.filter _

theorem unify_opened (opening : ActionId) {path request : Var} (hne : path ≠ request)
    {input : Payload} {text : String} (hinput : input.string? "path" = some text) (id : String) :
    ∃ f, (withOutputs (withInputs (.of opening) [("path", path)]) [("request", request)]).unify?
      opening input (.single "request" (.string id)) = some f := by
  obtain ⟨value, hvalue, _⟩ := Option.bind_eq_some_iff.mp hinput
  simp [Pattern.unify?, withOutputs, withInputs, Pattern.withOutput, Pattern.withInput, Pattern.of,
    Table.insert, OutcomeFilter.admits, Frame.match?, Frame.matchFields, Frame.bind?, Frame.empty,
    Table.get?, Payload.single, hvalue, hne]

theorem unanswered_eq (hoperates : Operates registry) {q : QueryHandle TravelWorld}
    (hq : registry.query "Requesting" "_getResponse" = .ok q) {f : Frame} {id : String}
    (hf : f.get? request = some (.string id)) {world : TravelWorld}
    (hunanswered : world.requests.peek id = none) (path error : Var) :
    unhandledRequest.unanswered request path error q [f] world =
      (.ok [Table.insert f error (.string ("No handler for " ++ (f.text? path).getD ""))],
        world) := by
  have hrows : q.call (.single "request" (orNull (f.get? request))) world = (.ok [], world) := by
    rw [hf, orNull, Option.getD_some, hoperates.responses q hq, hunanswered]
    rfl
  exact Effect.bind_of_ok hrows

private theorem fallsBack_of_builds (hoperates : Operates registry)
    (hopening : registry.action "Requesting" "request" = .ok opening)
    (hbuilds : unhandledRequest.Builds registry rule) :
    ∃ p answer request, rule.FallsBack registry opening p answer request := by
  refine hbuilds.elim_three rfl (by decide) fun request path error hpath herror _ => ?_
  refine ensures_queryOf fun q hq => ensures_actionPattern fun opening' hopening' => ?_
  refine ensures_respond fun respond hrespond => .pure ?_
  intro rule hclauses
  obtain rfl : opening' = opening := Except.ok.inj (hopening'.symm.trans hopening)
  refine ⟨_, _, request, by rw [hclauses], by rw [hclauses], replies_of_clauses hclauses hopening
    (action_withInputs _ _).1 hrespond (action_withInputs _ _).1 ?_ (.inr ⟨404, by decide, ?_⟩) ?_,
    fun input path' id hinput => ?_, fun f id world hf hunanswered => ?_⟩
  · simp [Pattern.withInput, withInputs, Table.get?_insert]
  · exact Table.get?_insert_self _ _ _
  · intro clause hclause
    cases hclause
    exact unhandledRequest.keeps_unanswered (hoperates.asks _ _ q hq (by decide)) request path herror
  · exact unify_opened _ hpath hinput id
  · have hleft := unanswered_eq hoperates hq hf hunanswered path error
    refine ⟨_, by simp only [refine, hclauses, hleft]; rfl, ?_⟩
    intro v hv
    obtain ⟨field, hterm⟩ := Template.mem_vars.mp hv
    rcases Table.mem_insert hterm with heq | hterm
    · cases heq
    · rcases mem_withInputs hterm with hold | ⟨w, hw, heq⟩
      · cases hold
      · cases heq
        have hbound : v = request ∨ v = error := by
          simpa using (List.mem_map_of_mem (f := Prod.snd) hw)
        rcases hbound with rfl | rfl
        · simp [Table.get?_insert, herror, hf]
        · simp

end Answers

private theorem orderly_of_acts (hoperates : Operates registry) {concept name : String}
    {id : ActionId} {fields : List (String × Var)}
    (hthen : rule.clauses.thenPatterns = [withInputs (.of id) fields])
    (hid : registry.action concept name = .ok id)
    (hacts : actsForUser (qualifiedName concept name) = true)
    (hreads : ∀ clause ∈ rule.clauses.whereClause, Refinement.Reads clause) :
    rule.Orderly registry where
  reads := hreads
  invokes p hp := by
    rw [hthen] at hp
    obtain rfl := List.mem_singleton.mp hp
    refine .inl (hoperates.background _ ?_)
    exact acts_of_action hid (action_withInputs _ _).1 hacts

private theorem orderly_passOn (hoperates : Operates registry) {h : Handler}
    (hgiven : ("user" :: h.given).Nodup)
    (hacts : actsForUser (qualifiedName h.concept h.action) = true)
    (hbuilds : h.passOn.Builds registry rule) : rule.Orderly registry := by
  obtain ⟨user, given, request, action, hp⟩ := passesOn_of_builds hgiven hbuilds
  refine orderly_of_acts hoperates hp.thenPatterns hp.invokes hacts fun clause hclause => ?_
  rw [hp.whereClause] at hclause
  cases hclause
  exact (Refinement.keeps_filter _ user).reads

private theorem orderly_createItineraryForTrip (hoperates : Operates registry)
    (hbuilds : createItineraryForTrip.Builds registry rule) : rule.Orderly registry := by
  refine hbuilds.elim ?_
  refine .var fun tripId => ensures_actionPattern fun created hcreated => ?_
  refine ensures_actionPattern fun create hcreate => .pure ?_
  intro rule hclauses
  exact orderly_of_acts hoperates (by rw [hclauses]) hcreate (by decide) (by simp [hclauses])

private theorem orderly_createPollForEvent (hoperates : Operates registry)
    (hbuilds : createPollForEvent.Builds registry rule) : rule.Orderly registry := by
  refine hbuilds.elim ?_
  refine .var fun event => .var fun eventDoc => .var fun itinerary => .var fun itineraryDoc => ?_
  refine .var fun tripId => .var fun tripDoc => .var fun pollName => .var fun tripOwner => ?_
  refine ensures_queryOf fun eventById hevent => ensures_queryOf fun itineraryById hitinerary => ?_
  refine ensures_queryOf fun tripById htrip => ?_
  refine ensures_actionPattern fun added hadded => ?_
  refine ensures_actionPattern fun create hcreate => .pure ?_
  intro rule hclauses
  refine orderly_of_acts hoperates (by rw [hclauses]) hcreate (by decide) fun clause hclause => ?_
  rw [hclauses] at hclause
  cases hclause
  have hasks {q : QueryHandle TravelWorld} {concept name : String}
      (hq : registry.query concept name = .ok q) (hname : name ≠ "_awaitResponse")
      (input output : Template) (frames : List Frame) :=
    Frame.bridge_asks input output (hoperates.asks _ _ q hq hname) frames
  refine fun frames => .bind (hasks hevent (by decide) _ _ _) fun withEvent _ => ?_
  refine .bind (hasks hitinerary (by decide) _ _ _) fun withItinerary _ => ?_
  exact .bind (hasks htrip (by decide) _ _ _) fun withTrip _ => .pure trivial

private theorem orderly_attachPollToEvent (hoperates : Operates registry)
    (hbuilds : attachPollToEvent.Builds registry rule) : rule.Orderly registry := by
  refine hbuilds.elim ?_
  refine .var fun event => .var fun poll => ensures_actionPattern fun added hadded => ?_
  refine ensures_actionPattern fun created hcreated => ?_
  refine ensures_actionPattern fun attach hattach => .pure ?_
  intro rule hclauses
  exact orderly_of_acts hoperates (by rw [hclauses]) hattach (by decide) (by simp [hclauses])

private theorem orderly_createExpenseForApprovedEvent (hoperates : Operates registry)
    (hbuilds : createExpenseForApprovedEvent.Builds registry rule) : rule.Orderly registry := by
  refine hbuilds.elim ?_
  refine .var fun event => .var fun eventDoc => .var fun cost => ensures_queryOf fun byId hbyId => ?_
  refine ensures_actionPattern fun approve happrove => ?_
  refine ensures_actionPattern fun create hcreate => .pure ?_
  intro rule hclauses
  refine orderly_of_acts hoperates (by rw [hclauses]) hcreate (by decide) fun clause hclause => ?_
  rw [hclauses] at hclause
  cases hclause
  have hcall := hoperates.asks _ _ byId hbyId (by decide)
  exact fun frames => .bind (Frame.bridge_asks _ _ hcall frames) fun _ _ => .pure trivial

private theorem Source.orderly_of_builds (hoperates : Operates registry) {opening : ActionId}
    (hopening : registry.action "Requesting" "request" = .ok opening) {s : Source}
    (hknown : s.Known) (hbuilds : s.definition.Builds registry rule) : rule.Orderly registry := by
  cases s with
  | requireUser => exact orderly_requireUser hbuilds
  | createItineraryForTrip => exact orderly_createItineraryForTrip hoperates hbuilds
  | createPollForEvent => exact orderly_createPollForEvent hoperates hbuilds
  | attachPollToEvent => exact orderly_attachPollToEvent hoperates hbuilds
  | createExpenseForApprovedEvent => exact orderly_createExpenseForApprovedEvent hoperates hbuilds
  | passOn h =>
    have hgiven : ∀ h ∈ handlers, ("user" :: h.given).Nodup := by decide
    exact orderly_passOn hoperates (hgiven h hknown) (actsForUser_of_handler h hknown) hbuilds
  | answerSuccess h =>
    have hfields : ∀ h ∈ handlers, ∀ field ∈ h.answers.map Prod.fst,
        field ≠ "request" ∧ field ≠ "status" := by decide
    exact orderly_answerSuccess (hfields h hknown) hbuilds
  | answerError h => exact orderly_answerError hbuilds
  | lookup l =>
    have hlookup : ∀ l ∈ getTripById :: getParticipantsInTrip :: itineraryLookups ++ costLookups,
        l.query ≠ "_awaitResponse" ∧ l.answer ≠ "request" ∧ l.answer ≠ "status" := by decide
    exact orderly_lookup hoperates (hlookup l hknown).1 (hlookup l hknown).2 hbuilds
  | getTripsByUser => exact orderly_getTripsByUser hoperates hbuilds
  | unhandledRequest =>
    obtain ⟨_, _, _, hfalls⟩ := fallsBack_of_builds hoperates hopening hbuilds
    exact orderly_of_replies hfalls.thenPatterns hfalls.replies

theorem orderly_of_forall₂ (hoperates : Operates registry) {opening : ActionId}
    (hopening : registry.action "Requesting" "request" = .ok opening)
    {built : List (Rule TravelWorld)}
    (hbuilds : List.Forall₂ (RuleDefinition.Builds registry) rules built) :
    (∀ rule ∈ built, rule.Orderly registry) ∧
      ∃ earlier last p answer request, built = earlier ++ [last] ∧
        last.FallsBack registry opening p answer request := by
  rw [← Source.definition_all, List.forall₂_map_left_iff] at hbuilds
  constructor
  · intro rule hrule
    have hknown := (List.forall₂_and_left _ _).mpr ⟨Source.known_of_mem, hbuilds⟩
    obtain ⟨s, _, hs, hrule⟩ := exists_source hknown rule hrule
    exact s.orderly_of_builds hoperates hopening hs hrule
  · obtain ⟨earlier, last, after, hbuilt, _, hlast, hafter⟩ := split_of_forall₂ hbuilds
    cases hafter
    obtain ⟨p, answer, request, hfalls⟩ := fallsBack_of_builds hoperates hopening hlast
    exact ⟨earlier, last, p, answer, request, hbuilt, hfalls⟩

end Travel

end ConceptSync
