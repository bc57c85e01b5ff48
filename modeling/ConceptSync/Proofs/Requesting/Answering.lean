import ConceptSync.Proofs.Engine.Handing
import ConceptSync.Proofs.Engine.SecondFiring
import ConceptSync.Proofs.Requesting.Replies
import ConceptSync.Proofs.Requesting.Table

set_option autoImplicit false
set_option relaxedAutoImplicit false

/-!
The run of a request. Until the request is answered, the rule that falls back waits at the bottom of
the stack; the first answer is accepted and all later ones are refused. So a run that comes to its
end has answered its request exactly once.
-/

namespace ConceptSync

variable {κ : Type}

/-- The answers among the records of a run. -/
def answersOf (records : List Record) : List Record :=
  records.filter fun r => r.action == "Requesting.respond"

def inputs (records : List Record) : List Payload := records.map Record.input

def answersIn {σ : Type} (registry : Registry σ) (calls : List (Activity σ)) : List Payload :=
  calls.filterMap fun call => match call with
    | .performed action input _ =>
      if registry.nameOf action = "Requesting.respond" then some input else none
    | .refined _ _ _ => none

/-- What the answers to a request come to: the first was accepted and kept without the name of the
request, all others were refused. -/
inductive Settled : List Record → Option Payload → Prop
  | unanswered : Settled [] none
  | answered {first : Record} {later : List Record} : first.isError = false →
      (∀ r ∈ later, r.isError = true) →
      Settled (first :: later) (some (first.input.erase "request"))

/-- What a piece of work does to a request and its answers: nothing, or one more answer. -/
inductive Advances (id : String) (p q : Progress (World κ) RecordStore) : Prop
  | same : answersOf q.records = answersOf p.records →
      q.stage.world.requests = p.stage.world.requests → Advances id p q
  | answer (child : Record) : answersOf q.records = answersOf p.records ++ [child] →
      IsAnswerTo id child.input →
      p.stage.world.requests.respond child.input = (child.output, q.stage.world.requests) →
      Advances id p q

private theorem IsAnswerTo.string? {id : String} {input : Payload} (h : IsAnswerTo id input) :
    input.string? "request" = some id := by
  simp [Payload.string?, h.names, Value.asString?]

private theorem Advances.settled {p q : Progress (World κ) RecordStore} {others : List OpenRequest}
    {e : OpenRequest} (h : Advances e.id p q) {response : Option Payload}
    (hholds : p.stage.world.requests.Holds others { e with response })
    (hsettled : Settled (answersOf p.records) response) :
    ∃ response', q.stage.world.requests.Holds others { e with response := response' } ∧
      Settled (answersOf q.records) response' ∧
      (response' = none → response = none ∧ answersOf q.records = answersOf p.records) := by
  cases h with
  | same hanswers hrequests =>
    rw [hanswers, hrequests]
    exact ⟨response, hholds, hsettled, fun h => ⟨h, rfl⟩⟩
  | answer child hanswers hinput hrespond =>
    rw [hanswers]
    have hnames : child.input.string? "request" = some e.id := hinput.string?
    generalize answersOf p.records = answers at hsettled ⊢
    cases hsettled with
    | unanswered =>
      rw [hholds.respond_of_unanswered hnames rfl] at hrespond
      obtain ⟨houtput, hrequests⟩ := Prod.mk.inj hrespond
      refine ⟨some (child.input.erase "request"), hrequests ▸ hholds.attach _, ?_, nofun⟩
      have haccepted : child.isError = false := by
        rw [Record.isError, ← houtput]
        rfl
      exact .answered haccepted fun _ hr => nomatch hr
    | @answered first later haccepted hrefused =>
      rw [hholds.respond_of_answered hnames rfl] at hrespond
      obtain ⟨houtput, hrequests⟩ := Prod.mk.inj hrespond
      refine ⟨_, hrequests ▸ hholds, .answered haccepted fun r hr => ?_, nofun⟩
      rcases List.mem_append.mp hr with hold | hnew
      · exact hrefused r hold
      · obtain rfl := List.mem_singleton.mp hnew
        rw [Record.isError, ← houtput]
        rfl

/-- The rule that falls back is still to be evaluated, after everything else, or is about to
answer. -/
inductive FallbackPends (engine : Engine (World κ)) (last : Rule (World κ)) (f : Frame)
    (root : Record) : List (Work (World κ)) → Prop
  | refining (above : List (Work (World κ))) :
      FallbackPends engine last f root (above ++ [.evaluate last [f] root])
  | invoking (action : ActionId) (input : Payload) :
      engine.registry.nameOf action = "Requesting.respond" →
      FallbackPends engine last f root [.invoke last action input root]

private theorem not_pends_nil {engine : Engine (World κ)} {last : Rule (World κ)} {f : Frame}
    {root : Record} : ¬ FallbackPends engine last f root [] := by
  generalize hstack : ([] : List (Work (World κ))) = stack
  rintro (above | _)
  · simp at hstack
  · cases hstack

/-- The loop of a run whose root opened a request, with a frame of the rule that falls back. -/
structure Loop.Serving (engine : Engine (World κ)) (opening : ActionId) (last : Rule (World κ))
    (f : Frame) (root : Record) (others : List OpenRequest) (e : OpenRequest)
    (l : Loop (World κ) RecordStore) : Prop where
  falls : ∃ p answer request, last.FallsBack engine.registry opening p answer request ∧
    f.get? request = some (.string e.id)
  isRoot : root.IsRoot
  opens : root.action = "Requesting.request"
  course : ∃ ms, Run.Course engine False ms l
  upheld : l.Upheld (answering engine.registry e.id) engine
  uncancelled : l.progress.run.cancel = none
  records : ∃ later, l.progress.records = root :: later
  names : ∀ r ∈ answersOf l.progress.records, IsAnswerTo e.id r.input
  settled : ∃ response, l.progress.stage.world.requests.Holds others { e with response } ∧
    Settled (answersOf l.progress.records) response ∧
    (response = none → FallbackPends engine last f root l.stack)

variable {engine : Engine (World κ)} {opening : ActionId}

private theorem step_of_stage {work : Work (World κ)} {p q : Progress (World κ) RecordStore}
    {next : List (Work (World κ))} (id : String) (hstep : step engine work p = (.ok next, q))
    (hstage : q.stage = p.stage) : Advances id p q := by
  have hid : (step engine work p).2.run.id = p.run.id := (continues_step engine work p).id
  simp only [hstep] at hid
  refine .same ?_ (by rw [hstage])
  simp only [Progress.records, hstage, hid]

private theorem evaluate_of_reads {rule : Rule (World κ)}
    (hreads : ∀ clause ∈ rule.clauses.whereClause, Refinement.Reads clause) (frames : List Frame)
    (trigger : Record) (p : Progress (World κ) RecordStore) :
    ∃ next q, step engine (.evaluate rule frames trigger) p = (.ok next, q) ∧
      q.stage = p.stage := by
  simp only [step, evaluateFiring]
  rcases refine_of_reads hreads frames p.stage.world with ⟨left, hrefine⟩ | ⟨e, hrefine⟩
  · rw [hrefine]
    cases left with
    | nil => exact ⟨_, _, rfl, rfl⟩
    | cons g rest => exact ⟨_, _, rfl, rfl⟩
  · rw [hrefine]
    exact ⟨_, _, rfl, rfl⟩

theorem answersOf_kept {action : ActionId} {input : Payload} {trigger child : Record}
    {p q : Progress (World κ) RecordStore} (h : Kept engine action input trigger child p q) :
    answersOf q.records = answersOf p.records ++
      if engine.registry.nameOf action = "Requesting.respond" then [child] else [] :=
  completionsOf_kept h "Requesting.respond"

private theorem Engine.Answering.completes_respond (hengine : engine.Answering opening) :
    engine.registry.Completes "Requesting.respond" := by
  intro action input world hname
  rw [hengine.responds action input hname]
  exact ⟨_, _, rfl⟩

private theorem advances_dispatched (hengine : engine.Answering opening) {id : String}
    {rule : Rule (World κ)} {action : ActionId} {input : Payload} {trigger : Record}
    {p : Progress (World κ) RecordStore} {stepped : Except Halt (List (Work (World κ))) ×
      Progress (World κ) RecordStore}
    (hadm : (answering engine.registry id).invocation action input)
    (h : Dispatched engine rule action input trigger p stepped) :
    ∃ next q, stepped = (.ok next, q) ∧ Advances id p q := by
  cases h with
  | refused error _ => exact ⟨_, _, rfl, .same rfl rfl⟩
  | failed failure world error hperform =>
    refine ⟨_, _, rfl, .same rfl ?_⟩
    rcases hadm with hbackground | ⟨hname, _⟩
    · have hrequests := hbackground.requests input p.stage.world
      rw [hperform] at hrequests
      exact hrequests
    · rw [hengine.responds action input hname] at hperform
      cases hperform
  | broken b world hperform =>
    rcases hadm with hbackground | ⟨hname, _⟩
    · exact absurd (congrArg Prod.fst hperform) (hbackground.unbroken input p.stage.world b)
    · rw [hengine.responds action input hname] at hperform
      cases hperform
  | @kept child q hkept =>
    refine ⟨_, _, rfl, ?_⟩
    have hanswers := answersOf_kept hkept
    have hperform := hkept.performed
    rcases hadm with hbackground | ⟨hname, hanswer⟩
    · rw [if_neg hbackground.answers, List.append_nil] at hanswers
      have hrequests := hbackground.requests input p.stage.world
      rw [hperform] at hrequests
      exact .same hanswers hrequests
    · rw [if_pos hname] at hanswers
      rw [hengine.responds action input hname] at hperform
      obtain ⟨houtput, hworld⟩ := Prod.mk.inj hperform
      refine .answer child hanswers (hkept.input.symm ▸ hanswer) (Prod.ext ?_ ?_)
      · rw [hkept.input]
        exact Outcome.ok.inj houtput
      · rw [hkept.input, ← hworld]
        rfl

namespace Loop.Serving

variable {last : Rule (World κ)} {f : Frame} {root : Record} {others : List OpenRequest}
  {e : OpenRequest} {l l' : Loop (World κ) RecordStore}

private theorem step_advances (hengine : engine.Answering opening)
    (h : l.Serving engine opening last f root others e) {work : Work (World κ)}
    (hwork : work ∈ l.stack) :
    ∃ next q, step engine work l.progress = (.ok next, q) ∧ Advances e.id l.progress q := by
  obtain ⟨ms, hcourse⟩ := h.course
  cases work with
  | complete action record =>
    have hstep : step engine (.complete action record) l.progress =
        (.ok (completeRecord engine action record l.progress.run).1,
          l.progress.withRun (completeRecord engine action record l.progress.run).2) := rfl
    exact ⟨_, _, hstep, step_of_stage e.id hstep rfl⟩
  | evaluate rule frames trigger =>
    obtain ⟨k, hrule, _⟩ := hcourse.handed_of_queued hwork
    obtain ⟨next, q, hstep, hstage⟩ := evaluate_of_reads
      (hengine.orderly rule (List.mem_of_getElem? hrule)).reads frames trigger l.progress
    exact ⟨next, q, hstep, step_of_stage e.id hstep hstage⟩
  | invoke rule action input trigger =>
    exact advances_dispatched hengine (h.upheld.queued _ hwork)
      (Progress.dispatched engine rule action input hcourse.reachable (hcourse.queued _ hwork))

private theorem answers_of_invoking (hengine : engine.Answering opening)
    (h : l.Serving engine opening last f root others e) {action : ActionId} {input : Payload}
    {next : List (Work (World κ))} {q : Progress (World κ) RecordStore}
    (hname : engine.registry.nameOf action = "Requesting.respond")
    (hstep : step engine (.invoke last action input root) l.progress = (.ok next, q)) :
    answersOf q.records ≠ answersOf l.progress.records := by
  obtain ⟨ms, hcourse⟩ := h.course
  obtain ⟨later, hrecords⟩ := h.records
  have hmem : root ∈ l.progress.records := by simp [hrecords]
  have hallowed : refusal engine (engine.registry.nameOf action) input root
      l.progress.stage.store = .ok none := by
    refine refusal_of_root input (h.isRoot.depth ▸ hengine.deep) ?_
      (hcourse.reachable.ancestors_of_isRoot (Progress.mem_records.mp hmem).1 h.isRoot)
    rw [h.opens, hname]
    decide
  have hdispatched := Progress.dispatched engine last action input hcourse.reachable hmem
  rw [hstep] at hdispatched
  cases hdispatched with
  | refused error hrefused =>
    rw [hallowed] at hrefused
    cases hrefused
  | failed failure world error hperform =>
    rw [hengine.responds action input hname] at hperform
    cases hperform
  | kept hkept =>
    rw [answersOf_kept hkept, if_pos hname]
    simp

private theorem pends_turn (hengine : engine.Answering opening)
    (h : l.Serving engine opening last f root others e) (hturn : l.turn engine = .inl l')
    (hunanswered : l.progress.stage.world.requests.Holds others { e with response := none })
    (hsame : answersOf l'.progress.records = answersOf l.progress.records)
    (hpends : FallbackPends engine last f root l.stack) :
    FallbackPends engine last f root l'.stack := by
  obtain ⟨p, answer, request, hfalls, hf⟩ := h.falls
  obtain ⟨work, rest, next, hstack, _, hstep, hstack'⟩ := Loop.turn_cases hturn
  rw [hstack']
  generalize l.stack = stack at hpends hstack
  cases hpends with
  | refining above =>
    cases above with
    | nil =>
      obtain ⟨rfl, rfl⟩ := List.cons.inj hstack
      obtain ⟨g, hrefine, hbound⟩ := hfalls.unanswered f e.id l.progress.stage.world hf
        hunanswered.peek
      obtain ⟨input, hinvocations⟩ := Rule.invocations_of_single hfalls.thenPatterns hbound
      simp only [step, evaluateFiring, hrefine, resolveFrames_eq_flatMap, List.flatMap_cons,
        List.flatMap_nil, hinvocations, List.append_nil, List.map_cons, List.map_nil] at hstep
      obtain ⟨hnext, _⟩ := Prod.mk.inj hstep
      rw [← Except.ok.inj hnext]
      exact .invoking answer.action input hfalls.replies.answers
    | cons top above =>
      rw [List.cons_append] at hstack
      obtain ⟨rfl, rfl⟩ := List.cons.inj hstack
      rw [← List.append_assoc]
      exact .refining (next ++ above)
  | invoking action input hname =>
    obtain ⟨rfl, rfl⟩ := List.cons.inj hstack
    exact absurd hsame (h.answers_of_invoking hengine hname hstep)

theorem turn (hengine : engine.Answering opening)
    (h : l.Serving engine opening last f root others e) (hturn : l.turn engine = .inl l') :
    l'.Serving engine opening last f root others e := by
  obtain ⟨ms, hcourse⟩ := h.course
  obtain ⟨later, hrecords⟩ := h.records
  obtain ⟨response, hholds, hsettled, hpends⟩ := h.settled
  obtain ⟨work, rest, next, hstack, _, hstep, _⟩ := Loop.turn_cases hturn
  have hwork : work ∈ l.stack := by simp [hstack]
  obtain ⟨next', q, hstep', hadvances⟩ := h.step_advances hengine hwork
  obtain ⟨_, rfl⟩ := Prod.mk.inj (hstep.symm.trans hstep')
  obtain ⟨response', hholds', hsettled', hnone⟩ := hadvances.settled hholds hsettled
  refine ⟨h.falls, h.isRoot, h.opens, ⟨_, hcourse.turn hturn⟩,
    h.upheld.turn (hengine.upholds e.id) hturn, ?_, ?_, ?_, response', hholds', hsettled', ?_⟩
  · exact (Loop.continues_of_reaches (.single hturn)).cancel.trans h.uncancelled
  · obtain ⟨_, _, _, _, ⟨hsame, _⟩ | ⟨_, _, _, _, child, _, _, hkept⟩⟩ := hcourse.records_turn hturn
    · exact ⟨later, hsame.trans hrecords⟩
    · exact ⟨later ++ [child], by rw [hkept.records, hrecords, List.cons_append]⟩
  · cases hadvances with
    | same hanswers _ => exact hanswers ▸ h.names
    | answer child hanswers hanswer _ =>
      rw [hanswers]
      intro r hr
      rcases List.mem_append.mp hr with hold | hnew
      · exact h.names r hold
      · exact List.mem_singleton.mp hnew ▸ hanswer
  · intro hresponse
    obtain ⟨rfl, hsame⟩ := hnone hresponse
    exact h.pends_turn hengine hturn hholds hsame (hpends rfl)

theorem drained (hengine : engine.Answering opening)
    (h : l.Serving engine opening last f root others e) :
    ∃ q, drain engine l.stack l.progress = (.ok (), q) ∧
      Loop.Serving engine opening last f root others e ⟨[], q⟩ ∧
      inputs (answersOf q.records) =
        inputs (answersOf l.progress.records) ++ answersIn engine.registry (l.activities engine) := by
  suffices hend : ∃ q, drain engine l.stack l.progress = (.ok (), q) ∧
      Loop.Serving engine opening last f root others e ⟨[], q⟩ by
    obtain ⟨q, hdrain, hserving⟩ := hend
    obtain ⟨ms, hcourse⟩ := h.course
    have hanswers := hcourse.callsOf_drain hengine.completes_respond
    rw [hdrain] at hanswers
    exact ⟨q, hdrain, hserving, hanswers⟩
  induction l using (Loop.wellFounded_turn RecordStore engine).induction with | h l ih => ?_
  rw [Loop.drain_eq_turn]
  rcases hturn : l.turn engine with l' | result
  · exact ih l' hturn (h.turn hengine hturn)
  · rcases Loop.turn_ends hturn with ⟨_, hstack, rfl⟩ | ⟨_, hcancelled, _⟩ |
      ⟨work, rest, halt, hstack, _, hstep, _⟩
    · exact ⟨l.progress, rfl, hstack ▸ h⟩
    · simp [Progress.isCancelled, h.uncancelled] at hcancelled
    · have hwork : work ∈ l.stack := by simp [hstack]
      obtain ⟨_, _, hstep', _⟩ := h.step_advances hengine hwork
      cases hstep.symm.trans hstep'

end Loop.Serving

/-- A run whose root opened a request and whose first answer alone was accepted. -/
structure Report.AnswersOnce (report : Report) (id : String) (first : Record)
    (later : List Record) : Prop where
  root : ∃ root, report.root? = some root ∧ root.action = "Requesting.request" ∧
    root.output = .single "request" (.string id)
  answers : answersOf report.records = first :: later
  names : ∀ r ∈ answersOf report.records, r.input.get? "request" = some (.string id)
  accepted : first.isError = false
  refused : ∀ r ∈ later, r.isError = true

private theorem serving_of_opened (hengine : engine.Answering opening)
    {stage : Stage (World κ) RecordStore} {input : Payload} {root : Record}
    {l : Loop (World κ) RecordStore} {e : OpenRequest} {others : List OpenRequest}
    (hcourse : Run.Course engine False [] l) (hrecords : l.progress.records = [root])
    (hopened : Run.Opened engine opening input root (Run.start stage none) l) {path : String}
    (hpath : input.string? "path" = some path)
    (houtput : root.output = .single "request" (.string e.id))
    (hholds : l.progress.stage.world.requests.Holds others { e with response := none }) :
    ∃ last f, (l.afterMatching engine opening root).Serving engine opening last f root others e := by
  obtain ⟨earlier, last, p, answer, request, hrules, hfalls⟩ := hengine.fallsBack
  obtain ⟨f, hunify⟩ := hfalls.matched input path e.id hpath
  rw [← hopened.input, ← houtput] at hunify
  obtain ⟨q, hq, hname, hbinds⟩ := hfalls.replies.waits
  rw [hfalls.whenPatterns] at hq
  obtain rfl := List.mem_singleton.mp hq
  have hadm : (answering engine.registry e.id).completion opening root.input root.output :=
    fun _ => by rw [houtput]; rfl
  have hmakes : q.Makes (answering engine.registry e.id).completion f :=
    ⟨opening, root.input, root.output, hadm, hunify⟩
  have hf : f.get? request = some (.string e.id) := hmakes.get?_request hname hbinds
  have haction : root.action = "Requesting.request" := hopened.action.trans hengine.opens
  have hjoins : l.progress.run.joins = [] := by rw [hopened.run]; rfl
  have hcancel : l.progress.run.cancel = none := by rw [hopened.run]; rfl
  obtain ⟨above, below, hfirings, _, hbelow⟩ := Run.firings_around [] (Run.offered_of_single hjoins
    earlier.length hfalls.whenPatterns hunify) (by simp)
  obtain rfl : below = [] := List.eq_nil_iff_forall_not_mem.mpr fun firing hfiring => by
    obtain ⟨k, hk, _⟩ := hbelow firing hfiring
    cases hk
  have hnone : answersOf (l.afterMatching engine opening root).progress.records = [] := by
    rw [show (l.afterMatching engine opening root).progress.records = [root] from hrecords]
    simp [answersOf, haction]
  refine ⟨last, f, ⟨q, answer, request, hfalls, hf⟩, hopened.isRoot, haction,
    ⟨_, hcourse.turn hopened.turn.1⟩, ?_, hcancel, ⟨[], hrecords⟩, by simp [hnone], none, hholds, ?_,
    fun _ => ?_⟩
  · exact (Loop.Upheld.opening hjoins hopened.stack hadm).turn (hengine.upholds e.id) hopened.turn.1
  · rw [hnone]
    exact .unanswered
  · simp only [Loop.afterMatching, hrules, hfirings, List.map_append, List.map_cons, List.map_nil]
    exact .refining _

section Invoking

variable {stage : Stage (World κ) RecordStore} {input : Payload}

/-- The run of a request begins with its opening, and serves it from its first turn on. -/
structure Run.Serves (engine : Engine (World κ)) (opening : ActionId)
    (stage : Stage (World κ) RecordStore) (input : Payload) (e : OpenRequest)
    (others : List OpenRequest) (root : Record) (l : Loop (World κ) RecordStore)
    (last : Rule (World κ)) (f : Frame) : Prop where
  opens : Run.opening engine opening input (start stage none) = some l
  opened : Opened engine opening input root (start stage none) l
  output : root.output = .single "request" (.string e.id)
  records : l.progress.records = [root]
  serving : (l.afterMatching engine opening root).Serving engine opening last f root others e

theorem Engine.Answering.serves (hengine : engine.Answering opening)
    (hstore : stage.store.Reachable)
    (hnew : ∀ r ∈ stage.store.records, r.run ≠ (Run.start stage none).run.id)
    {path : String} (hpath : input.string? "path" = some path) {world : World κ} {e : OpenRequest}
    {others : List OpenRequest}
    (hperform : engine.registry.perform opening input stage.world =
      (.ok (.single "request" (.string e.id)), world))
    (hholds : world.requests.Holds others { e with response := none }) :
    ∃ root l last f, Run.Serves engine opening stage input e others root l last f := by
  obtain ⟨l, hopening⟩ := Run.opening_of_perform (p := Run.start stage none) hengine.kind hperform
  have hstart : Run.Course engine False [] ⟨[], Run.start stage none⟩ := .start hstore hnew
  obtain ⟨root, hopened⟩ := Run.opened hstart.reachable hopening
  have hrecords := hopened.records
  rw [Run.records_start hnew, List.nil_append] at hrecords
  obtain ⟨houtput, hworld⟩ := Prod.mk.inj (hperform.symm.trans hopened.performed)
  have houtput : root.output = .single "request" (.string e.id) := (Outcome.ok.inj houtput).symm
  obtain ⟨last, f, hserving⟩ := serving_of_opened hengine
    (hstart.invoke opening input hopening) hrecords hopened hpath houtput (hworld ▸ hholds)
  exact ⟨root, l, last, f, hopening, hopened, houtput, hrecords, hserving⟩

theorem Engine.Answering.answers_once (hengine : engine.Answering opening)
    (hstore : stage.store.Reachable)
    (hnew : ∀ r ∈ stage.store.records, r.run ≠ (Run.start stage none).run.id) {path : String}
    (hpath : input.string? "path" = some path) {world : World κ} {e : OpenRequest}
    {others : List OpenRequest}
    (hperform : engine.registry.perform opening input stage.world =
      (.ok (.single "request" (.string e.id)), world))
    (hholds : world.requests.Holds others { e with response := none }) :
    ∃ report after first later, engine.invoke opening input stage = (.ok report, after) ∧
      report.AnswersOnce e.id first later ∧
      answersIn engine.registry (engine.activities opening input stage) =
        inputs (answersOf report.records) ∧
      IsAnswerTo e.id first.input ∧
      after.world.requests.Holds others { e with response := some (first.input.erase "request") } := by
  obtain ⟨root, l, last, f, h⟩ := hengine.serves hstore hnew hpath hperform hholds
  have hrecords : (l.afterMatching engine opening root).progress.records = [root] := h.records
  have haction : root.action = "Requesting.request" := h.opened.action.trans hengine.opens
  obtain ⟨ended, hdrain, hend, hperformed⟩ := h.serving.drained hengine
  obtain ⟨later, hlater⟩ := hend.records
  obtain ⟨response, hholds', hsettled, hpends⟩ := hend.settled
  have hdrained : drain engine l.stack l.progress = (.ok (), ended) := by
    rw [Loop.drain_eq_turn, h.opened.turn.1]
    exact hdrain
  have hfinish := Engine.invoke_of_drained h.opens hdrained
  have hall : answersIn engine.registry (engine.activities opening input stage) =
      inputs (answersOf ended.records) := by
    rw [hperformed, hrecords, ← h.opened.turn.2, Engine.activities, if_pos hengine.kind, h.opens]
    simp [answersIn, answersOf, inputs, hengine.opens, haction]
  have hnames := hend.names
  generalize hanswers : answersOf ended.records = answers at hsettled hnames
  cases hsettled with
  | unanswered => exact absurd (hpends rfl) not_pends_nil
  | @answered first later haccepted hrefused =>
    refine ⟨_, _, first, later, hfinish, ⟨⟨root, ?_, haction, h.output⟩, hanswers, ?_, haccepted,
      hrefused⟩, hall, hnames first (List.mem_cons_self ..), hholds'⟩
    · simp [Report.root?, show ended.records = _ from hlater, h.opened.isRoot.depth]
    · exact fun r hr => (hnames r (hanswers ▸ hr)).names

end Invoking

end ConceptSync
