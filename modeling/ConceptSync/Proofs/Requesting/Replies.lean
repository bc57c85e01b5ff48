import ConceptSync.Proofs.Engine.Upholding
import ConceptSync.Proofs.Rule.Refining
import ConceptSync.Requesting.Concept

set_option autoImplicit false
set_option relaxedAutoImplicit false

/-!
Rules that answer requests. An answer names the request whose opening the rule waited for, so in a
run that opens one request every answer names that one. One rule answers what no other rule did.
-/

namespace ConceptSync

variable {κ : Type} {registry : Registry (World κ)} {rule : Rule (World κ)}

/-- An action beside those of requests: it is never broken off and leaves open requests alone. -/
structure Registry.Background (registry : Registry (World κ)) (action : ActionId) : Prop where
  opens : registry.nameOf action ≠ "Requesting.request"
  answers : registry.nameOf action ≠ "Requesting.respond"
  unbroken : ∀ input world b, (registry.perform action input world).1 ≠ .broken b
  requests : ∀ input world, (registry.perform action input world).2.requests = world.requests

/-- An invocation that answers the request for whose opening the rule waits. Its status, if it has
one, is not that of a timeout. -/
structure Rule.Replies (registry : Registry (World κ)) (rule : Rule (World κ)) (answer : Pattern)
    (request : Var) : Prop where
  answers : registry.nameOf answer.action = "Requesting.respond"
  names : answer.input.get? "request" = some (.var request)
  status : answer.input.get? "status" = none ∨
    ∃ code : Int, code ≠ 504 ∧ answer.input.get? "status" = some (.literal (.ofInt code))
  waits : ∃ p ∈ rule.clauses.whenPatterns, registry.nameOf p.action = "Requesting.request" ∧
    ("request", Term.var request) ∈ p.output
  keeps : ∀ clause ∈ rule.clauses.whereClause, Refinement.Keeps request clause

structure Rule.Orderly (registry : Registry (World κ)) (rule : Rule (World κ)) : Prop where
  reads : ∀ clause ∈ rule.clauses.whereClause, Refinement.Reads clause
  invokes : ∀ p ∈ rule.clauses.thenPatterns,
    registry.Background p.action ∨ ∃ request, rule.Replies registry p request

/-- The rule answers every request that is opened and found without an answer. -/
structure Rule.FallsBack (registry : Registry (World κ)) (opening : ActionId)
    (rule : Rule (World κ)) (p answer : Pattern) (request : Var) : Prop where
  whenPatterns : rule.clauses.whenPatterns = [p]
  thenPatterns : rule.clauses.thenPatterns = [answer]
  replies : rule.Replies registry answer request
  matched : ∀ input path id, Payload.string? input "path" = some path →
    ∃ f, p.unify? opening input (.single "request" (.string id)) = some f
  unanswered : ∀ (f : Frame) id (world : World κ), f.get? request = some (.string id) →
    world.requests.peek id = none → ∃ g, refine rule [f] world = (.frames [g], world) ∧
      ∀ v ∈ answer.input.vars, (g.get? v).isSome = true

/-- An engine whose rules are orderly, with a last one that falls back. -/
structure Engine.Answering (engine : Engine (World κ)) (opening : ActionId) : Prop where
  opens : engine.registry.nameOf opening = "Requesting.request"
  kind : engine.registry.kind? opening = some .action
  orderly : ∀ rule ∈ engine.rules, rule.Orderly engine.registry
  fallsBack : ∃ earlier last p answer request, engine.rules = earlier ++ [last] ∧
    last.FallsBack engine.registry opening p answer request
  responds : ∀ action input, engine.registry.nameOf action = "Requesting.respond" →
    engine.registry.perform action input = Requesting.respond input
  deep : 0 < engine.config.maxDepth

theorem Engine.Answering.world_refine {engine : Engine (World κ)} {opening : ActionId}
    (h : engine.Answering opening) (hrule : rule ∈ engine.rules) (frames : List Frame)
    (world : World κ) : (refine rule frames world).2 = world := by
  rcases refine_of_reads (h.orderly rule hrule).reads frames world with ⟨_, heq⟩ | ⟨_, heq⟩ <;>
    rw [heq]

/-- The input of an answer to the request of an identifier. -/
structure IsAnswerTo (id : String) (input : Payload) : Prop where
  names : input.get? "request" = some (.string id)
  status : input.get? "status" ≠ some (.ofInt 504)

def answering (registry : Registry (World κ)) (id : String) : Admission where
  completion action _ output :=
    registry.nameOf action = "Requesting.request" → output.get? "request" = some (.string id)
  invocation action input :=
    registry.Background action ∨
      registry.nameOf action = "Requesting.respond" ∧ IsAnswerTo id input

variable {id : String}

theorem Pattern.Makes.get?_request {p : Pattern} {f : Frame} {request : Var}
    (hmakes : p.Makes (answering registry id).completion f)
    (hname : registry.nameOf p.action = "Requesting.request")
    (hbinds : ("request", Term.var request) ∈ p.output) :
    f.get? request = some (.string id) := by
  obtain ⟨action, input, output, hadm, hunify⟩ := hmakes
  obtain ⟨rfl, _, hfits⟩ := Pattern.unify?_sound hunify
  obtain ⟨actual, hactual, hagrees⟩ := hfits _ hbinds
  rw [hadm hname] at hactual
  cases hactual
  exact hagrees.get?_string

namespace Rule.Replies

variable {answer : Pattern} {request : Var}

private theorem get?_of_refine (h : rule.Replies registry answer request) {frames left : List Frame}
    (hjoined : ∀ f ∈ frames,
      f.JoinedOf (answering registry id).completion rule.clauses.whenPatterns)
    {world world' : World κ} (hrefine : refine rule frames world = (.frames left, world')) :
    ∀ f ∈ left, f.get? request = some (.string id) := by
  intro f hf
  obtain ⟨g, hg, hkept⟩ := keeps_of_refine h.keeps hrefine f hf
  obtain ⟨p, hp, hname, hbinds⟩ := h.waits
  obtain ⟨made, hmakes, hcovers⟩ := hjoined g hg p hp
  obtain ⟨bound, hbound, heq⟩ := hcovers request _ (hmakes.get?_request hname hbinds)
  have hstring : bound = .string id := heq.elim (fun h => h) Value.eq_string_of_equals
  exact hkept _ (hstring ▸ hbound)

private theorem isAnswerTo (h : rule.Replies registry answer request) {f : Frame} {input : Payload}
    (hf : f.get? request = some (.string id)) (hresolve : f.resolve answer.input = .ok input) :
    IsAnswerTo id input := by
  constructor
  · rw [Frame.get?_resolve hresolve, h.names]
    simp [Frame.resolveTerm, hf, Except.toOption]
  · intro hstatus
    rw [Frame.get?_resolve hresolve] at hstatus
    rcases h.status with hnone | ⟨code, hcode, hliteral⟩
    · simp [hnone] at hstatus
    · rw [hliteral] at hstatus
      have hcode' : code = 504 := by
        simpa [Frame.resolveTerm, Except.toOption, Value.ofInt] using hstatus
      exact hcode hcode'

end Rule.Replies

theorem Engine.Answering.upholds {engine : Engine (World κ)} {opening : ActionId}
    (h : engine.Answering opening) (id : String) :
    engine.Upholds (answering engine.registry id) where
  rules rule hrule frames hjoined world left world' hrefine f hf i hi := by
    obtain ⟨p, hp, haction, hresolve⟩ := Rule.mem_invocations hi
    rw [show i.1 = p.action from haction]
    rcases (h.orderly rule hrule).invokes p hp with hbackground | ⟨request, hreplies⟩
    · exact .inl hbackground
    · have hf := hreplies.get?_of_refine hjoined hrefine f hf
      exact .inr ⟨hreplies.answers, hreplies.isAnswerTo hf hresolve⟩
  actions action input hadm world output world' hperform := by
    rintro hopens
    rcases hadm with hbackground | ⟨hanswers, _⟩
    · exact absurd hopens hbackground.opens
    · rw [hopens] at hanswers
      exact absurd hanswers (by decide)

end ConceptSync
