import ConceptSync.Proofs.Registry
import ConceptSync.Proofs.Requesting.Answering
import ConceptSync.Proofs.Requesting.Gateway

set_option autoImplicit false
set_option relaxedAutoImplicit false

/-!
Exclusion against inclusion. A route counts as excluded when it is listed with or without the base,
but a gateway looks it up with the base alone. So exclusion wins over inclusion unless the excluded
route is listed without the base and included with it.
-/

namespace ConceptSync

namespace RequestingConfig

variable (config : RequestingConfig)

theorem stripBase_append {route : String} (hslash : route.toList.head? = some '/') :
    config.stripBase (config.baseUrl ++ route) = route := by
  obtain ⟨rest, hroute⟩ := List.head?_eq_some_iff.mp hslash
  have hprefix : config.baseUrl.toList.isPrefixOf? (config.baseUrl ++ route).toList =
      some ('/' :: rest) :=
    List.isPrefixOf?_eq_some_iff_append_eq.mpr (by rw [String.toList_append, hroute])
  simp only [stripBase, hprefix]
  rw [← hroute, String.ofList_toList]

theorem stripBase_of_not_prefix {path : String} (h : ¬ config.baseUrl.toList <+: path.toList) :
    config.stripBase path = path := by
  have hnone : config.baseUrl.toList.isPrefixOf? path.toList = none :=
    Option.eq_none_iff_forall_ne_some.mpr fun rest hrest =>
      h ⟨rest, List.isPrefixOf?_eq_some_iff_append_eq.mp hrest⟩
  rw [stripBase, hnone]

end RequestingConfig

namespace Gateway

variable {κ π : Type} [RecordKeeper π]

/-- A call that is left to rules. It opens a request for its route and is answered as one; nothing
else is invoked for it from outside. -/
structure LeavesToRules (g : Gateway κ) (path : String) (body : Payload)
    (stage : Stage (World κ) π) : Prop where
  served : ∀ user opened, onWorld (g.resolveUser body) stage = (.ok user, opened) →
    g.handle path body stage = g.request (g.config.stripBase path) body user opened
  answered : ∀ response, (g.handle path body stage).1 = .ok response → response.route = .requested
  invoked : ∀ i, g.invocation? path body stage = some i → i.1 = g.requestAction ∧
    ∃ user, i.2.1 = requestInput (g.config.stripBase path) body user

private theorem route_request {g : Gateway κ} {route : String} {body : Payload}
    {user : Option String} {stage : Stage (World κ) π} {response : GatewayResponse}
    (h : (g.request route body user stage).1 = .ok response) : response.route = .requested := by
  unfold request at h
  split at h
  · cases h
  · split at h
    · cases h
      rfl
    · split at h <;> cases h
      rfl

private theorem route_passthrough {g : Gateway κ} {route : String} {body : Payload}
    {user : Option String} {stage : Stage (World κ) π} {response : GatewayResponse}
    (h : (g.passthrough route body user stage).1 = .ok response) :
    response.route = .passthrough := by
  unfold passthrough at h
  simp only at h
  split at h
  · cases h
    rfl
  · split at h
    · cases h
      rfl
    · split at h
      · split at h <;> cases h
        rfl
      · split at h
        · cases h
          rfl
        · split at h <;> cases h
          rfl
      · cases h
        rfl

private theorem leavesToRules_of_unjustified {g : Gateway κ} {path : String}
    (h : g.routes.justification? (g.config.baseUrl ++ g.config.stripBase path) = none)
    (body : Payload) (stage : Stage (World κ) π) : g.LeavesToRules path body stage := by
  refine ⟨fun user opened hresolve => ?_, fun response hresponse => ?_, fun i hinvocation => ?_⟩
  · simp only [handle, hresolve, h]
  · simp only [handle, h] at hresponse
    split at hresponse
    · cases hresponse
    · exact route_request hresponse
  · simp only [invocation?, h] at hinvocation
    split at hinvocation
    · cases hinvocation
    · cases hinvocation
      exact ⟨rfl, _, rfl⟩

end Gateway

namespace RouteTable

/-- Exclusion wins for a path. If its route is excluded, every gateway with this table leaves the
call to rules, whatever its engine, its sessions, the body and the stage. -/
def ExclusionWins (t : RouteTable) (config : RequestingConfig) (path : String) : Prop :=
  t.isExcluded config.baseUrl (config.stripBase path) = true →
    ∀ {κ π : Type} [RecordKeeper π] (engine : Engine (World κ))
      (sessions : Option (SessionResolver (World κ))) (g : Gateway κ) (body : Payload)
      (stage : Stage (World κ) π),
      Gateway.build engine config t sessions = .ok g → g.LeavesToRules path body stage

/-- A path whose route is excluded without the base, and included with it. -/
structure Exposes (t : RouteTable) (config : RequestingConfig) (path : String) : Prop where
  excluded : config.stripBase path ∈ t.exclusions
  unlisted : config.baseUrl ++ config.stripBase path ∉ t.exclusions
  included : (t.inclusions.get? (config.baseUrl ++ config.stripBase path)).isSome = true

variable {t : RouteTable} {config : RequestingConfig} {path : String}

private theorem justification_of_excluded
    (h : t.isExcluded config.baseUrl (config.stripBase path) = true)
    (hexposed : ¬ t.Exposes config path) :
    t.justification? (config.baseUrl ++ config.stripBase path) = none := by
  unfold justification?
  by_cases hlisted : config.baseUrl ++ config.stripBase path ∈ t.exclusions
  · simp [hlisted]
  · have hexcluded : config.stripBase path ∈ t.exclusions := by
      simpa [isExcluded, hlisted] using h
    rw [if_neg (by simpa using hlisted)]
    exact Option.not_isSome_iff_eq_none.mp fun hincluded =>
      hexposed ⟨hexcluded, hlisted, hincluded⟩

theorem exclusionWins_of_not_exposes (h : ¬ t.Exposes config path) :
    t.ExclusionWins config path := by
  intro hexcluded κ π _ engine sessions g body stage hbuild
  have hunjustified := justification_of_excluded hexcluded h
  unfold Gateway.build at hbuild
  split at hbuild
  · cases hbuild
    exact Gateway.leavesToRules_of_unjustified hunjustified body stage
  · cases hbuild

end RouteTable

private theorem Engine.invoke_of_no_rules {κ : Type} {engine : Engine (World κ)} {action : ActionId}
    {input output : Payload} {stage : Stage (World κ) RecordStore} {after : World κ}
    (hrules : engine.rules = []) (hkind : engine.registry.kind? action = some .action)
    (hperform : engine.registry.perform action input stage.world = (.ok output, after)) :
    ∃ report, (engine.invoke action input stage).1 = .ok report := by
  obtain ⟨l, hopening⟩ := Run.opening_of_perform (p := Run.start stage none) hkind hperform
  obtain ⟨record, _, hstack, hrun, _⟩ := Run.opening_cases hopening
  have hends : ∃ ended, l.run engine 2 = some (.ok (), ended) := by
    simp [Loop.run, Loop.turn, hstack, Progress.isCancelled, Progress.withRun, hrun, Run.start,
      Run.fresh, step, completeRecord, hrules, offerRules]
  obtain ⟨ended, hends⟩ := hends
  exact ⟨_, congrArg Prod.fst (Engine.invoke_of_drained hopening (Loop.of_run hends).1)⟩

namespace Requesting

def bareEngine (config : RequestingConfig) : Engine (World Unit) :=
  ⟨⟨(concept config).entries, [concept config]⟩, [], {}⟩

def emptyStage : Stage (World Unit) RecordStore := ⟨.start 0 (), .empty, 0⟩

private theorem perform_ok {κ : Type} (config : RequestingConfig) {op : Operation}
    (hop : op ∈ operations) (hkind : op.kind = .action) (input : Payload) (world : World κ) :
    ∃ output after, perform config op.name input world = (.ok output, after) := by
  simp only [operations, List.mem_cons, List.not_mem_nil, or_false] at hop
  rcases hop with rfl | rfl | rfl | rfl
  · change ∃ output after, request config input world = (.ok output, after)
    unfold request
    cases input.string? "path" <;> exact ⟨_, _, rfl⟩
  · exact ⟨_, _, rfl⟩
  · cases hkind
  · cases hkind

private theorem query_ok (config : RequestingConfig) {op : Operation} (hop : op ∈ operations)
    (hkind : op.kind = .query) :
    ∃ rows after, query config op.name (.single "request" (.string "")) emptyStage.world =
      (.ok rows, after) := by
  simp only [operations, List.mem_cons, List.not_mem_nil, or_false] at hop
  rcases hop with rfl | rfl | rfl | rfl
  · cases hkind
  · cases hkind
  · exact ⟨_, _, rfl⟩
  · exact ⟨_, _, rfl⟩

private theorem split_qualified :
    ∀ op ∈ operations, Text.splitQualified (qualifiedName name op.name) = (name, op.name) := by
  decide

private theorem passthrough_ok {config : RequestingConfig} {g : Gateway Unit}
    (hengine : g.engine = bareEngine config) (route : String) :
    ∃ response,
      (g.passthrough route (.single "request" (.string "")) none emptyStage).1 = .ok response := by
  unfold Gateway.passthrough
  simp only [hengine]
  split
  · exact ⟨_, rfl⟩
  · next qualified hroute =>
    split
    · exact ⟨_, rfl⟩
    · next id hlookup =>
      obtain ⟨e, he, hentry, rfl⟩ := Registry.entry_of_lookup hlookup
      obtain ⟨op, hop, rfl⟩ := List.mem_map.mp he
      have hkind : (bareEngine config).registry.kind? id = some op.kind := by
        simp [Registry.kind?, hentry]
      split
      · next haction =>
        obtain ⟨output, after, hperform⟩ := perform_ok config hop
          (Option.some.inj (hkind.symm.trans haction)) (.single "request" (.string ""))
          emptyStage.world
        have hperformed : (bareEngine config).registry.perform id (.single "request" (.string ""))
            emptyStage.world = (.ok output, after) := by
          simp only [Registry.perform, hentry]
          exact hperform
        obtain ⟨report, hinvoke⟩ := Engine.invoke_of_no_rules rfl haction hperformed
        split
        · exact ⟨_, rfl⟩
        · next hhalt => simp [hhalt] at hinvoke
      · next hquery =>
        obtain ⟨rows, after, hrows⟩ := query_ok config hop
          (Option.some.inj (hkind.symm.trans hquery))
        have hsplit : Text.splitQualified
            (qualifiedName (concept (κ := Unit) config).name op.name) = (name, op.name) :=
          split_qualified op hop
        simp only [hsplit]
        simp [Registry.concept?, bareEngine, concept, Gateway.onWorld, hrows]
      · exact ⟨_, rfl⟩

end Requesting

namespace RouteTable

variable {t : RouteTable} {config : RequestingConfig} {path : String}

private theorem not_exclusionWins_of_exposes (h : t.Exposes config path) :
    ¬ t.ExclusionWins config path := by
  intro hwins
  have hexcluded : t.isExcluded config.baseUrl (config.stripBase path) = true := by
    simp [isExcluded, h.excluded]
  obtain ⟨g, hbuild⟩ : ∃ g, Gateway.build (Requesting.bareEngine config) config t none = .ok g :=
    ⟨_, rfl⟩
  have hleft := hwins hexcluded _ _ g (.single "request" (.string "")) Requesting.emptyStage hbuild
  cases hbuild
  obtain ⟨reason, hreason⟩ := Option.isSome_iff_exists.mp h.included
  have hjustified : t.justification? (config.baseUrl ++ config.stripBase path) = some reason := by
    rw [justification?, if_neg (by simpa using h.unlisted), hreason]
  have hengine : (Gateway.mk (Requesting.bareEngine config) config t none ⟨0⟩).engine =
      Requesting.bareEngine config := rfl
  obtain ⟨response, hresponse⟩ := Requesting.passthrough_ok hengine (config.stripBase path)
  have hpassed := Gateway.route_passthrough hresponse
  have hrequested := hleft.answered response (by
    simp [Gateway.handle, Gateway.onWorld, Gateway.resolveUser, hjustified]
    exact hresponse)
  simp [hpassed] at hrequested

/-- Exclusion wins for a path unless its route is excluded without the base and included with it. -/
theorem exclusionWins_iff (t : RouteTable) (config : RequestingConfig) (path : String) :
    t.ExclusionWins config path ↔ ¬ t.Exposes config path :=
  ⟨fun hwins hexposed => not_exclusionWins_of_exposes hexposed hwins, exclusionWins_of_not_exposes⟩

def noted : RouteTable := .ofLists [("/api/Note/add", "oops")] ["/Note/add"]

def noteEngine : Engine (World Unit) :=
  let note : Concept (World Unit) :=
    { name := "Note", operations := [.action "add"], perform := fun _ _ => pure [],
      query := fun _ _ => pure [] }
  let requesting := Requesting.concept {}
  ⟨⟨requesting.entries ++ note.entries, [requesting, note]⟩, [], {}⟩

/-- A note is added directly although its route is excluded. -/
theorem noted_not_exclusionWins : ¬ noted.ExclusionWins {} "/api/Note/add" := by
  intro hwins
  obtain ⟨g, hbuild⟩ : ∃ g, Gateway.build noteEngine {} noted none = .ok g := ⟨_, rfl⟩
  have hleft := hwins (by decide) noteEngine none g [] Requesting.emptyStage hbuild
  cases hbuild
  have hadded := (hleft.invoked (⟨4⟩, [], Requesting.emptyStage) (by rfl)).1
  exact absurd hadded (by decide)

end RouteTable

end ConceptSync
