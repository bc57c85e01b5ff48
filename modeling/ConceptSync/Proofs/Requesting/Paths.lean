import ConceptSync.Proofs.Naming
import ConceptSync.Proofs.Requesting.Exclusion

set_option autoImplicit false
set_option relaxedAutoImplicit false

/-!
Paths of operations. The route of an operation is the base and two segments, its concept and its own
name, and from these two the operation is read back, so a call of an included route gets to the
operation that the route was made for. A concept whose name has a dot loses it on the way.
-/

namespace ConceptSync

/-- A part of a path between slashes. -/
structure IsSegment (s : String) : Prop where
  nonempty : s ≠ ""
  noSlash : '/' ∉ s.toList

def segmentPath (concept operation : String) : String := "/" ++ concept ++ "/" ++ operation

def firstSegment (path : String) : List Char := (path.toList.drop 1).takeWhile (· ≠ '/')

private theorem splitAtFirst?_eq_some {mark : Char} {text before after : List Char}
    (h : Text.splitAtFirst? mark text = some (before, after)) :
    text = before ++ mark :: after ∧ mark ∉ before := by
  induction text generalizing before with
  | nil => cases h
  | cons c rest ih =>
    simp only [Text.splitAtFirst?] at h
    split at h
    · next heq =>
      cases h
      exact ⟨by rw [heq, List.nil_append], List.not_mem_nil⟩
    · next hne =>
      obtain ⟨⟨before, after⟩, hsplit, hparts⟩ := Option.map_eq_some_iff.mp h
      cases hparts
      obtain ⟨hrest, hmark⟩ := ih hsplit
      refine ⟨by rw [hrest, List.cons_append], ?_⟩
      simpa using ⟨Ne.symm hne, hmark⟩

private theorem routeFor_qualifiedName {concept : String} (hdot : '.' ∉ concept.toList)
    (base operation : String) :
    routeFor base (qualifiedName concept operation) = base ++ segmentPath concept operation := by
  have htext : (qualifiedName concept operation).toList =
      concept.toList ++ '.' :: operation.toList := by simp [qualifiedName]
  rw [routeFor, htext, splitAtFirst?_append hdot]
  apply String.toList_injective
  simp [segmentPath]

private theorem firstSegment_segmentPath {concept : String} (h : '/' ∉ concept.toList)
    (operation : String) :
    firstSegment (segmentPath concept operation) = concept.toList := by
  have htext : (segmentPath concept operation).toList =
      '/' :: (concept.toList ++ '/' :: operation.toList) := by simp [segmentPath]
  have hkept : ∀ c ∈ concept.toList, decide (c ≠ '/') = true := fun c hc =>
    decide_eq_true fun heq => h (heq ▸ hc)
  rw [firstSegment, htext, List.drop_one, List.tail_cons, List.takeWhile_append_of_pos hkept,
    List.takeWhile_cons_of_neg (by simp), List.append_nil]

private theorem operationFor?_segmentPath {concept operation : String}
    (hconcept : IsSegment concept) (hoperation : IsSegment operation) :
    operationFor? (segmentPath concept operation) = some (qualifiedName concept operation) := by
  have htext : (segmentPath concept operation).toList =
      '/' :: (concept.toList ++ '/' :: operation.toList) := by simp [segmentPath]
  simp [operationFor?, htext, splitAtFirst?_append hconcept.noSlash, hconcept.nonempty,
    hoperation.nonempty, hoperation.noSlash]

private theorem segments_of_operationFor {path qualified : String}
    (h : operationFor? path = some qualified) :
    ∃ concept operation, IsSegment concept ∧ IsSegment operation ∧
      path = segmentPath concept operation ∧ qualified = qualifiedName concept operation := by
  unfold operationFor? at h
  split at h
  · next rest hpath =>
    split at h
    · next concept operation hsplit =>
      obtain ⟨hrest, hslash⟩ := splitAtFirst?_eq_some hsplit
      split at h
      · cases h
      · next hparts =>
        cases h
        simp only [Bool.or_eq_true, List.isEmpty_iff, List.contains_iff_mem, not_or] at hparts
        refine ⟨_, _, ⟨by simpa using hparts.1.1, by simpa using hslash⟩,
          ⟨by simpa using hparts.1.2, by simpa using hparts.2⟩, ?_, rfl⟩
        apply String.toList_injective
        simp [segmentPath, hpath, hrest]
    · cases h
  · cases h

private theorem routeFor_ne_of_dot {concept : String} (hdot : '.' ∈ concept.toList)
    (operation : String) :
    routeFor "" (qualifiedName concept operation) ≠ segmentPath concept operation := by
  obtain ⟨before, after, hconcept, hbefore⟩ := List.eq_append_cons_of_mem hdot
  have htext : (qualifiedName concept operation).toList =
      before ++ '.' :: (after ++ '.' :: operation.toList) := by
    simp [qualifiedName, hconcept]
  intro h
  have hlists := congrArg String.toList h
  rw [routeFor, htext, splitAtFirst?_append hbefore] at hlists
  simp [segmentPath, hconcept] at hlists

private theorem routeFor_operationFor_iff {path qualified : String}
    (h : operationFor? path = some qualified) :
    routeFor "" qualified = path ↔ '.' ∉ firstSegment path := by
  obtain ⟨concept, operation, hconcept, _, rfl, rfl⟩ := segments_of_operationFor h
  rw [firstSegment_segmentPath hconcept.noSlash]
  refine ⟨fun heq hdot => routeFor_ne_of_dot hdot operation heq, fun hdot => ?_⟩
  rw [routeFor_qualifiedName hdot, String.empty_append]

private theorem stripBase_routeFor (config : RequestingConfig) {concept : String}
    (hdot : '.' ∉ concept.toList) (operation : String) :
    config.stripBase (routeFor config.baseUrl (qualifiedName concept operation)) =
      segmentPath concept operation := by
  rw [routeFor_qualifiedName hdot]
  exact config.stripBase_append (by simp [segmentPath])

namespace Gateway

variable {κ π : Type} [RecordKeeper π] {g : Gateway κ} {concept operation reason : String}
  {path : String} {body : Payload} {user : Option String} {stage opened : Stage (World κ) π}

/-- A call of a path is the invocation of an action. It ends as that ends, and the output of the
root is the answer. -/
structure Performs (g : Gateway κ) (path : String) (body : Payload) (stage : Stage (World κ) π)
    (id : ActionId) (input : Payload) (opened : Stage (World κ) π) : Prop where
  answered : ∀ report left, g.engine.invoke id input opened = (.ok report, left) →
    g.handle path body stage = (.ok ⟨.passthrough, rootOutput report, some report⟩, left)
  halted : ∀ halt left, g.engine.invoke id input opened = (.error halt, left) →
    g.handle path body stage = (.error halt, left)

/-- A call of a path is a query. Its rows are the answer, and it starts no run. -/
structure Asks (g : Gateway κ) (path : String) (body : Payload) (stage : Stage (World κ) π)
    (query : Effect (World κ) (List Payload)) (opened : Stage (World κ) π) : Prop where
  answered : ∀ rows left, onWorld query opened = (.ok rows, left) →
    g.handle path body stage = (.ok ⟨.passthrough, .array (rows.map Value.object), none⟩, left)
  halted : ∀ halt left, onWorld query opened = (.error halt, left) →
    g.handle path body stage = (.error halt, left)

/-- A call of the route of an operation gets to that operation, if the route is included. -/
theorem handle_routeFor (g : Gateway κ) (hdot : '.' ∉ concept.toList) (operation : String)
    (hincluded : g.routes.justification?
      (routeFor g.config.baseUrl (qualifiedName concept operation)) = some reason)
    (hresolved : onWorld (g.resolveUser body) stage = (.ok user, opened)) :
    g.handle (routeFor g.config.baseUrl (qualifiedName concept operation)) body stage =
      g.passthrough (segmentPath concept operation) body user opened := by
  have hroute : g.config.baseUrl ++ segmentPath concept operation =
      routeFor g.config.baseUrl (qualifiedName concept operation) :=
    (routeFor_qualifiedName hdot g.config.baseUrl operation).symm
  simp only [handle, hresolved, stripBase_routeFor g.config hdot, hroute, hincluded]

private theorem performs_of_passthrough {route qualified : String} {id : ActionId}
    (hhandle : g.handle path body stage = g.passthrough route body user opened)
    (hoperation : operationFor? route = some qualified)
    (haction : g.engine.registry.lookupKind .action qualified = some id) :
    g.Performs path body stage id (directInput body user) opened := by
  obtain ⟨found, hlookup, hfound⟩ := Option.bind_eq_some_iff.mp haction
  obtain ⟨hkind, hid⟩ := Option.ite_none_right_eq_some.mp hfound
  cases hid
  constructor
  · intro report left hinvoke
    cases user <;>
      simp only [directInput] at hinvoke <;>
      simp only [hhandle, passthrough, hoperation, hlookup, hkind, hinvoke]
  · intro halt left hinvoke
    cases user <;>
      simp only [directInput] at hinvoke <;>
      simp only [hhandle, passthrough, hoperation, hlookup, hkind, hinvoke]

private theorem asks_of_passthrough {route : String} {q : QueryHandle (World κ)}
    (hhandle : g.handle path body stage = g.passthrough route body user opened)
    (hoperation : operationFor? route = some (qualifiedName concept operation))
    (hdot : '.' ∉ concept.toList)
    (hquery : g.engine.registry.query concept operation = .ok q) :
    g.Asks path body stage (q.call (directInput body user)) opened := by
  have hsplit := splitQualified_qualifiedName hdot operation
  obtain ⟨c, id, hconcept, hlookup, hkind, rfl⟩ := Registry.exists_of_query hquery
  constructor
  · intro rows left hrows
    cases user <;>
      simp only [QueryHandle.call, directInput] at hrows <;>
      simp only [hhandle, passthrough, hoperation, hlookup, hkind, hsplit, hconcept, hrows]
  · intro halt left hrows
    cases user <;>
      simp only [QueryHandle.call, directInput] at hrows <;>
      simp only [hhandle, passthrough, hoperation, hlookup, hkind, hsplit, hconcept, hrows]

end Gateway

/-- Routes are made from operations and operations read from paths by inverse functions, whatever
the base: where the concept's name has no dot, the route of an operation leads back to it, and a path
that has an operation is the route of it. So a call of an included route performs the action or asks
the query that the route was made for, with the verified user in the place of the named one. -/
theorem routeFor_operationFor_inverse :
    (∀ (config : RequestingConfig) (concept operation : String), IsSegment concept →
      IsSegment operation → '.' ∉ concept.toList →
      operationFor? (config.stripBase (routeFor config.baseUrl (qualifiedName concept operation))) =
        some (qualifiedName concept operation)) ∧
    (∀ {κ π : Type} [RecordKeeper π] (g : Gateway κ) (concept operation reason : String)
      (body : Payload) (user : Option String) (stage opened : Stage (World κ) π),
      IsSegment concept → IsSegment operation → '.' ∉ concept.toList →
      g.routes.justification? (routeFor g.config.baseUrl (qualifiedName concept operation)) =
        some reason →
      Gateway.onWorld (g.resolveUser body) stage = (.ok user, opened) →
      (∀ id, g.engine.registry.lookupKind .action (qualifiedName concept operation) = some id →
        g.Performs (routeFor g.config.baseUrl (qualifiedName concept operation)) body stage id
          (Gateway.directInput body user) opened) ∧
      ∀ q, g.engine.registry.query concept operation = .ok q →
        g.Asks (routeFor g.config.baseUrl (qualifiedName concept operation)) body stage
          (q.call (Gateway.directInput body user)) opened) ∧
    ∀ path qualified, operationFor? path = some qualified →
      (routeFor "" qualified = path ↔ '.' ∉ firstSegment path) := by
  refine ⟨fun config concept operation hconcept hoperation hdot => ?_,
    fun g concept operation reason body user stage opened hconcept hoperation hdot hincluded
      hresolved => ?_,
    fun path qualified h => routeFor_operationFor_iff h⟩
  · rw [stripBase_routeFor config hdot, operationFor?_segmentPath hconcept hoperation]
  · have hhandle := g.handle_routeFor hdot operation hincluded hresolved
    have hroute := operationFor?_segmentPath hconcept hoperation
    exact ⟨fun id haction => Gateway.performs_of_passthrough hhandle hroute haction,
      fun q hquery => Gateway.asks_of_passthrough hhandle hroute hdot hquery⟩

private def votingEngine : Engine (World Unit) :=
  let polling : Concept (World Unit) :=
    { name := "Polling", operations := [.action "vote.add", .query "_votes"],
      perform := fun _ _ => pure [("ok", .bool true)],
      query := fun _ _ => pure [[("votes", .ofNat 1)]] }
  let requesting := Requesting.concept {}
  ⟨⟨requesting.entries ++ polling.entries, [requesting, polling]⟩, [], {}⟩

private def votingGateway : Gateway Unit where
  engine := votingEngine
  config := { baseUrl := "/Polling" }
  routes := .ofLists [("/Polling/Polling/vote.add", "own votes"), ("/Polling/Polling/_votes", "")] []
  sessions := none
  requestAction := ⟨0⟩

/-- A base that is the beginning of the route itself, an action whose name has a dot, and a query. -/
theorem routeFor_operationFor_inverse_dotted :
    operationFor? (RequestingConfig.stripBase { baseUrl := "/Polling" }
      (routeFor "/Polling" (qualifiedName "Polling" "vote.add"))) = some "Polling.vote.add" ∧
    routeFor "" "Polling.vote.add" = "/Polling/vote.add" ∧
    (∃ report, (votingGateway.handle "/Polling/Polling/vote.add" [] Requesting.emptyStage).1 =
        .ok ⟨.passthrough, .object [("ok", .bool true)], some report⟩ ∧
      report.records.map Record.action = ["Polling.vote.add"]) ∧
    (votingGateway.handle "/Polling/Polling/_votes" [] Requesting.emptyStage).1 =
      .ok ⟨.passthrough, .array [.object [("votes", .ofNat 1)]], none⟩ := by
  have hconcept : IsSegment "Polling" := ⟨by decide, by decide⟩
  have hadd : IsSegment "vote.add" := ⟨by decide, by decide⟩
  have hvotes : IsSegment "_votes" := ⟨by decide, by decide⟩
  have hdot : '.' ∉ "Polling".toList := by decide
  refine ⟨?_, ?_, ?_, ?_⟩
  · exact routeFor_operationFor_inverse.1 { baseUrl := "/Polling" } "Polling" "vote.add" hconcept
      hadd hdot
  · exact (routeFor_operationFor_inverse.2.2 "/Polling/vote.add" "Polling.vote.add"
      (by decide)).mpr (by decide)
  · have hperforms := (routeFor_operationFor_inverse.2.1 votingGateway "Polling" "vote.add"
      "own votes" [] none Requesting.emptyStage Requesting.emptyStage hconcept hadd hdot
      (by decide) rfl).1 ⟨4⟩ (by decide)
    obtain ⟨l, hopening⟩ : ∃ l, Run.opening votingEngine ⟨4⟩ []
        (Run.start Requesting.emptyStage none) = some l := ⟨_, rfl⟩
    obtain ⟨ended, hrun⟩ : ∃ ended, l.run votingEngine 2 = some (.ok (), ended) := by
      cases hopening
      exact ⟨_, rfl⟩
    have hinvoke := Engine.invoke_of_drained hopening (Loop.of_run hrun).1
    cases hopening
    cases hrun
    exact ⟨_, congrArg Prod.fst (hperforms.answered _ _ hinvoke), rfl⟩
  · have hasks := (routeFor_operationFor_inverse.2.1 votingGateway "Polling" "_votes" ""
      [] none Requesting.emptyStage Requesting.emptyStage hconcept hvotes hdot
      (by decide) rfl).2 ⟨_, "_votes", "Polling._votes"⟩ rfl
    exact congrArg Prod.fst (hasks.answered _ _ rfl)

end ConceptSync
