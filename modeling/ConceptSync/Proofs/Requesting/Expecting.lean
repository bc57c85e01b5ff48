import ConceptSync.Proofs.Engine.CycleGuard
import ConceptSync.Proofs.Engine.Leading
import ConceptSync.Proofs.Requesting.Answering

set_option autoImplicit false
set_option relaxedAutoImplicit false

/-!
Which answer a request gets. From the moment on when a rule that gives an answer waits on the stack
of the request's run, below work that cannot lead to any answer, that answer comes first.
-/

namespace ConceptSync

variable {κ : Type} {engine : Engine (World κ)}

/-- All requests that are opened are for one route, and no rule opens another. -/
def routed (registry : Registry (World κ)) (route : String) : Admission where
  completion action input _ :=
    registry.nameOf action = "Requesting.request" → input.get? "path" = some (.string route)
  invocation action _ := registry.nameOf action ≠ "Requesting.request"

theorem Engine.Answering.upholds_routed {opening : ActionId} (h : engine.Answering opening)
    (route : String) : engine.Upholds (routed engine.registry route) where
  rules rule hrule frames _ world left world' _ f _ i hi := by
    obtain ⟨p, hp, haction, _⟩ := Rule.mem_invocations hi
    simp only [routed, haction]
    rcases (h.orderly rule hrule).invokes p hp with hbackground | ⟨request, hreplies⟩
    · exact hbackground.opens
    · rw [hreplies.answers]
      decide
  actions action input hadm world output world' _ hopens := absurd hopens hadm

theorem Progress.refusal_of_new {σ : Type} {engine : Engine σ} {p : Progress σ RecordStore}
    (hstore : p.stage.store.Reachable) (hgrown : Grown p.records) {trigger : Record}
    (htrigger : trigger ∈ p.records) (hdepth : trigger.depth + 1 ≤ engine.config.maxDepth)
    {action : String} (hnew : ∀ r ∈ p.records, r.action ≠ action) (input : Payload) :
    refusal engine action input trigger p.stage.store = .ok none := by
  cases hguard : engine.config.cycleGuard with
  | true =>
    refine (refusal_eq hguard hstore hgrown htrigger hdepth action input).2 ?_
    rintro ⟨a, rfl | hcauses, haction, _⟩
    · exact hnew a htrigger haction
    · exact hnew a hcauses.left_mem haction
  | false =>
    have hlimit : ¬ engine.config.maxDepth < trigger.depth + 1 := by omega
    unfold refusal
    simp only [if_neg hlimit, hguard, Bool.false_eq_true, if_false]

theorem Run.Serves.reached {opening : ActionId} (hengine : engine.Answering opening)
    {stage : Stage (World κ) RecordStore} {input : Payload} {e : OpenRequest}
    {others : List OpenRequest} {root : Record} {l l' : Loop (World κ) RecordStore}
    {last : Rule (World κ)} {f : Frame}
    (h : Run.Serves engine opening stage input e others root l last f) {route : String}
    (hpath : input.get? "path" = some (.string route))
    (hreach : Loop.Reaches engine (l.afterMatching engine opening root) l') :
    l'.Serving engine opening last f root others e ∧
      l'.Upheld (routed engine.registry route) engine := by
  induction hreach with
  | refl =>
    have hjoins : l.progress.run.joins = [] := by rw [h.opened.run]; rfl
    have hadm : (routed engine.registry route).completion opening root.input root.output :=
      fun _ => h.opened.input.symm ▸ hpath
    exact ⟨h.serving, (Loop.Upheld.opening hjoins h.opened.stack hadm).turn
      (hengine.upholds_routed route) h.opened.turn.1⟩
  | tail _ hturn ih => exact ⟨ih.1.turn hengine hturn, ih.2.turn (hengine.upholds_routed route) hturn⟩

def Rule.Gives (registry : Registry (World κ)) (rule : Rule (World κ)) (frames : List Frame)
    (id : String) (input : Payload) : Prop :=
  ∀ world : World κ, world.requests.peek id = none → ∃ g respond,
    refine rule frames world = (.frames [g], world) ∧
      rule.invocations g = [(respond, input)] ∧ registry.nameOf respond = "Requesting.respond"

/-- An answer comes first: a rule waits to give it below work that leads to actions of other names,
or it is being made, or it was made. What comes after leads to these names and to answers. -/
inductive Expects (engine : Engine (World κ)) (names : List String) (id : String)
    (input : Payload) : List (Work (World κ)) → List Record → Prop
  | waiting {above below : List (Work (World κ))} {rule : Rule (World κ)} {frames : List Frame}
      {trigger : Record} : (∀ w ∈ above, w.LeadsTo engine.registry names) →
      rule.Gives engine.registry frames id input →
      trigger.depth + 1 ≤ engine.config.maxDepth →
      (∀ w ∈ below, w.LeadsTo engine.registry ("Requesting.respond" :: names)) →
      Expects engine names id input (above ++ .evaluate rule frames trigger :: below) []
  | making {below : List (Work (World κ))} {rule : Rule (World κ)} {respond : ActionId}
      {trigger : Record} : engine.registry.nameOf respond = "Requesting.respond" →
      trigger.depth + 1 ≤ engine.config.maxDepth →
      (∀ w ∈ below, w.LeadsTo engine.registry ("Requesting.respond" :: names)) →
      Expects engine names id input (.invoke rule respond input trigger :: below) []
  | made {stack : List (Work (World κ))} {first : Record} {later : List Record} :
      first.input = input →
      (∀ w ∈ stack, w.LeadsTo engine.registry ("Requesting.respond" :: names)) →
      Expects engine names id input stack (first :: later)

private theorem Expects.nameOf_queued {names : List String} {id : String} {input : Payload}
    {stack : List (Work (World κ))} {answers : List Record}
    (h : Expects engine names id input stack answers) {rule : Rule (World κ)} {action : ActionId}
    {given : Payload} {trigger : Record} (hqueued : .invoke rule action given trigger ∈ stack) :
    engine.registry.nameOf action ∈ "Requesting.respond" :: names := by
  cases h with
  | waiting habove _ _ hbelow =>
    rcases List.mem_append.mp hqueued with hmem | hmem
    · exact List.mem_cons_of_mem _ (habove _ hmem)
    · rcases List.mem_cons.mp hmem with heq | hmem
      · cases heq
      · exact hbelow _ hmem
  | making hname _ hbelow =>
    rcases List.mem_cons.mp hqueued with heq | hmem
    · cases heq
      exact hname ▸ List.mem_cons_self ..
    · exact hbelow _ hmem
  | made _ hstack => exact hstack _ hqueued

/-- The loop of a request's run in which an answer comes first, with the records from before. -/
structure Loop.Expecting (engine : Engine (World κ)) (opening : ActionId) (last : Rule (World κ))
    (f : Frame) (root : Record) (others : List OpenRequest) (e : OpenRequest) (route : String)
    (names : List String) (input : Payload) (begun : List Record)
    (l : Loop (World κ) RecordStore) : Prop where
  serving : l.Serving engine opening last f root others e
  routes : l.Upheld (routed engine.registry route) engine
  expects : Expects engine names e.id input l.stack (answersOf l.progress.records)
  records : ∃ later, l.progress.records = begun ++ later ∧
    ∀ r ∈ later, r.action ∈ "Requesting.respond" :: names

/-- Names whose completions lead to these names alone, with and without answers, and which are no
answers themselves. -/
structure Engine.Settles (engine : Engine (World κ)) (route : String) (names : List String) :
    Prop where
  before : engine.Stays (routed engine.registry route) names
  after : engine.Stays (routed engine.registry route) ("Requesting.respond" :: names)
  silent : "Requesting.respond" ∉ names

namespace Loop.Expecting

variable {opening : ActionId} {last : Rule (World κ)} {f : Frame} {root : Record}
  {others : List OpenRequest} {e : OpenRequest} {route : String} {names : List String}
  {input : Payload} {begun : List Record} {l l' : Loop (World κ) RecordStore}

private theorem answersOf_step {ms : List (Matching (World κ))}
    (hcourse : Run.Course engine False ms l) {work : Work (World κ)}
    (hwork : work.record ∈ l.progress.records) :
    answersOf (step engine work l.progress).2.records = answersOf l.progress.records ∨
      ∃ rule respond given trigger child, work = .invoke rule respond given trigger ∧
        engine.registry.nameOf respond = "Requesting.respond" ∧ child.input = given ∧
        (step engine work l.progress).1 = .ok [.complete respond child] ∧
        answersOf (step engine work l.progress).2.records =
          answersOf l.progress.records ++ [child] := by
  rcases Progress.records_step engine hcourse.reachable hwork with
    ⟨hsame, _⟩ | ⟨rule, action, given, trigger, child, rfl, hnext, hkept⟩
  · rw [hsame]
    exact .inl rfl
  · rw [answersOf_kept hkept]
    by_cases hname : engine.registry.nameOf action = "Requesting.respond"
    · rw [if_pos hname]
      exact .inr ⟨rule, action, given, trigger, child, rfl, hname, hkept.input, hnext, rfl⟩
    · rw [if_neg hname, List.append_nil]
      exact .inl rfl

private theorem answersOf_making (hengine : engine.Answering opening)
    {ms : List (Matching (World κ))} (hcourse : Run.Course engine False ms l)
    (hnone : answersOf l.progress.records = []) {rule : Rule (World κ)} {respond : ActionId}
    {trigger : Record} (hname : engine.registry.nameOf respond = "Requesting.respond")
    (hdepth : trigger.depth + 1 ≤ engine.config.maxDepth)
    (htrigger : trigger ∈ l.progress.records) {next : List (Work (World κ))}
    {q : Progress (World κ) RecordStore}
    (hstep : step engine (.invoke rule respond input trigger) l.progress = (.ok next, q)) :
    ∃ child, next = [.complete respond child] ∧ child.input = input ∧
      answersOf q.records = [child] := by
  have hnew : ∀ r ∈ l.progress.records, r.action ≠ engine.registry.nameOf respond := by
    intro r hr haction
    have hanswer : r ∈ answersOf l.progress.records :=
      List.mem_filter.mpr ⟨hr, by simp [haction, hname]⟩
    rw [hnone] at hanswer
    cases hanswer
  have hallowed : refusal engine (engine.registry.nameOf respond) input trigger
      l.progress.stage.store = .ok none :=
    Progress.refusal_of_new hcourse.reachable hcourse.grown htrigger hdepth hnew input
  have hdispatched := Progress.dispatched engine rule respond input hcourse.reachable htrigger
  rw [hstep] at hdispatched
  cases hdispatched with
  | refused error hrefused => cases hallowed.symm.trans hrefused
  | failed failure world error hperform =>
    rw [hengine.responds respond input hname] at hperform
    cases hperform
  | @kept child _ hkept =>
    refine ⟨child, rfl, hkept.input, ?_⟩
    rw [answersOf_kept hkept, hnone, if_pos hname, List.nil_append]

private theorem answersOf_silent {ms : List (Matching (World κ))}
    (hcourse : Run.Course engine False ms l) {work : Work (World κ)}
    (hwork : work.record ∈ l.progress.records)
    (hsilent : ∀ rule respond given trigger, work = .invoke rule respond given trigger →
      engine.registry.nameOf respond ≠ "Requesting.respond") :
    answersOf (step engine work l.progress).2.records = answersOf l.progress.records := by
  rcases answersOf_step hcourse hwork with hsame | ⟨_, _, _, _, _, hinvoke, hname, _⟩
  · exact hsame
  · exact absurd hname (hsilent _ _ _ _ hinvoke)

private theorem invokes_of_gives {p q : Progress (World κ) RecordStore} {rule : Rule (World κ)}
    {frames : List Frame} {trigger : Record} {id : String} {next : List (Work (World κ))}
    (hgives : rule.Gives engine.registry frames id input)
    (hwaited : p.stage.world.requests.peek id = none)
    (hstep : step engine (.evaluate rule frames trigger) p = (.ok next, q)) :
    ∃ respond, next = [.invoke rule respond input trigger] ∧
      engine.registry.nameOf respond = "Requesting.respond" := by
  obtain ⟨g, respond, hrefine, hinvocations, hname⟩ := hgives _ hwaited
  simp only [step, evaluateFiring, hrefine, resolveFrames_eq_flatMap, List.flatMap_cons,
    List.flatMap_nil, hinvocations, List.append_nil, List.map_cons, List.map_nil] at hstep
  obtain ⟨hnext, _⟩ := Prod.mk.inj hstep
  exact ⟨respond, (Except.ok.inj hnext).symm, hname⟩

private theorem peek_of_unanswered
    (h : l.Expecting engine opening last f root others e route names input begun)
    (hnone : answersOf l.progress.records = []) :
    l.progress.stage.world.requests.peek e.id = none := by
  obtain ⟨response, hholds, hsettled, _⟩ := h.serving.settled
  rw [hnone] at hsettled
  cases hsettled
  exact hholds.peek

private theorem leadsTo_turn
    (h : l.Expecting engine opening last f root others e route names input begun)
    {allowed : List String} (hstays : engine.Stays (routed engine.registry route) allowed)
    {work : Work (World κ)} {rest next : List (Work (World κ))} (hwork : work ∈ l.stack)
    (hqueued : ∀ w ∈ work :: rest, w.LeadsTo engine.registry allowed)
    (hnext : (step engine work l.progress).1 = .ok next) :
    ∀ w ∈ next ++ rest, w.LeadsTo engine.registry allowed := by
  obtain ⟨htop, hrest⟩ := List.forall_mem_cons.mp hqueued
  intro w hw
  rcases List.mem_append.mp hw with hnew | hold
  · exact leadsTo_step hstays h.routes.made (h.routes.queued work hwork) htop next hnext w hnew
  · exact hrest w hold

private theorem expects_turn (hengine : engine.Answering opening)
    (hnames : engine.Settles route names)
    (h : l.Expecting engine opening last f root others e route names input begun)
    (hturn : l.turn engine = .inl l') :
    Expects engine names e.id input l'.stack (answersOf l'.progress.records) := by
  obtain ⟨ms, hcourse⟩ := h.serving.course
  obtain ⟨work, rest, next, hstack, _, hstep, hstack'⟩ := Loop.turn_cases hturn
  have hwork : work ∈ l.stack := by simp [hstack]
  have hrecord := hcourse.queued work hwork
  have hnext : (step engine work l.progress).1 = .ok next := by rw [hstep]
  have hleft : (step engine work l.progress).2 = l'.progress := by rw [hstep]
  have hexpects := h.expects
  rw [hstack] at hexpects
  rw [hstack', ← hleft]
  generalize hprior : answersOf l.progress.records = prior at hexpects
  generalize hqueue : work :: rest = queue at hexpects
  cases hexpects with
  | @waiting above below rule frames trigger habove hgives hdepth hbelow =>
    cases above with
    | nil =>
      obtain ⟨rfl, rfl⟩ := List.cons.inj hqueue
      obtain ⟨respond, rfl, hname⟩ := invokes_of_gives hgives (h.peek_of_unanswered hprior) hstep
      rw [answersOf_silent hcourse hrecord (fun _ _ _ _ => nofun), hprior]
      exact .making hname hdepth hbelow
    | cons top above =>
      obtain ⟨rfl, rfl⟩ := List.cons.inj hqueue
      have hsilent : ∀ rule respond given trigger, work = .invoke rule respond given trigger →
          engine.registry.nameOf respond ≠ "Requesting.respond" := by
        rintro _ respond _ _ rfl hname
        exact hnames.silent (hname ▸ habove _ (List.mem_cons_self ..))
      rw [answersOf_silent hcourse hrecord hsilent, hprior, List.append_eq, ← List.append_assoc]
      exact .waiting (h.leadsTo_turn hnames.before hwork habove hnext) hgives hdepth hbelow
  | @making below rule respond trigger hname hdepth hbelow =>
    obtain ⟨rfl, rfl⟩ := List.cons.inj hqueue
    obtain ⟨child, rfl, hinput, hanswer⟩ :=
      answersOf_making hengine hcourse hprior hname hdepth hrecord hstep
    rw [hleft, hanswer]
    refine .made hinput fun w hw => ?_
    rcases List.mem_cons.mp hw with rfl | hold
    · exact hname ▸ List.mem_cons_self ..
    · exact hbelow w hold
  | @made _ first later hfirst hqueued =>
    subst hqueue
    have hlater := h.leadsTo_turn hnames.after hwork hqueued hnext
    rcases answersOf_step hcourse hrecord with hsame | ⟨_, _, _, _, child, _, _, _, _, hmore⟩
    · rw [hsame, hprior]
      exact .made hfirst hlater
    · rw [hmore, hprior, List.cons_append]
      exact .made hfirst hlater

private theorem turn (hengine : engine.Answering opening) (hnames : engine.Settles route names)
    (h : l.Expecting engine opening last f root others e route names input begun)
    (hturn : l.turn engine = .inl l') :
    l'.Expecting engine opening last f root others e route names input begun := by
  obtain ⟨ms, hcourse⟩ := h.serving.course
  refine ⟨h.serving.turn hengine hturn, h.routes.turn (hengine.upholds_routed route) hturn,
    h.expects_turn hengine hnames hturn, ?_⟩
  obtain ⟨later, hrecords, hlater⟩ := h.records
  obtain ⟨work, rest, hstack, _, ⟨hsame, _⟩ | ⟨_, action, _, _, child, rfl, _, hkept⟩⟩ :=
    hcourse.records_turn hturn
  · exact ⟨later, hsame.trans hrecords, hlater⟩
  · refine ⟨later ++ [child], by rw [hkept.records, hrecords, List.append_assoc], fun r hr => ?_⟩
    rcases List.mem_append.mp hr with hold | hnew
    · exact hlater r hold
    · obtain rfl := List.mem_singleton.mp hnew
      rw [hkept.action]
      exact h.expects.nameOf_queued (by rw [hstack]; exact List.mem_cons_self ..)

private theorem reaches (hengine : engine.Answering opening) (hnames : engine.Settles route names)
    (h : l.Expecting engine opening last f root others e route names input begun)
    (hreach : Loop.Reaches engine l l') :
    l'.Expecting engine opening last f root others e route names input begun := by
  induction hreach with
  | refl => exact h
  | tail _ hturn ih => exact ih.turn hengine hnames hturn

/-- The run comes to its end with the expected answer as its first. From here on nothing was
performed or recorded but actions of these names and answers. -/
theorem drained (hengine : engine.Answering opening) (hnames : engine.Settles route names)
    (h : l.Expecting engine opening last f root others e route names input begun) :
    ∃ q first later more, drain engine l.stack l.progress = (.ok (), q) ∧
      answersOf q.records = first :: later ∧ first.input = input ∧
      q.records = begun ++ more ∧ (∀ r ∈ more, r.action ∈ "Requesting.respond" :: names) ∧
      ∀ action given world, .performed action given world ∈ l.activities engine →
        engine.registry.nameOf action ∈ "Requesting.respond" :: names := by
  obtain ⟨q, hdrain, _, _⟩ := h.serving.drained hengine
  have hend : Expecting engine opening last f root others e route names input begun
      ⟨[], (drain engine l.stack l.progress).2⟩ := Loop.drain_of_kept engine
    (I := Expecting engine opening last f root others e route names input begun)
    (P := fun q => Expecting engine opening last f root others e route names input begun ⟨[], q⟩)
    (fun l l' hl hturn => hl.turn hengine hnames hturn) (fun l result hl hturn => ?_) h
  · rw [hdrain] at hend
    obtain ⟨more, hrecords, hmore⟩ := hend.records
    have hexpects := hend.expects
    generalize hanswers : answersOf q.records = answers at hexpects
    generalize hstack : ([] : List (Work (World κ))) = stack at hexpects
    cases hexpects with
    | waiting _ _ _ _ => simp at hstack
    | making _ _ _ => cases hstack
    | @made _ first later hfirst _ =>
      refine ⟨q, first, later, more, hdrain, hanswers, hfirst, hrecords, hmore,
        fun action given world hperformed => ?_⟩
      obtain ⟨l', rule, trigger, hreach, hqueued, _⟩ := Loop.invoke_of_performed hperformed
      exact (h.reaches hengine hnames hreach).expects.nameOf_queued hqueued
  · -- the loop ends because nothing is left: it is neither cancelled nor halted
    obtain ⟨q', hdrain', _⟩ := hl.serving.drained hengine
    rw [Loop.drain_eq_turn, hturn] at hdrain'
    rcases Loop.turn_ends hturn with ⟨_, hstack, rfl⟩ | ⟨_, hcancelled, _⟩ |
      ⟨_, _, halt, _, _, _, hhalt⟩
    · rw [← hstack]
      exact hl
    · simp [Progress.isCancelled, hl.serving.uncancelled] at hcancelled
    · rw [show result = (.ok (), q') from hdrain'] at hhalt
      cases hhalt

end Loop.Expecting

/-- When the opening of a request is matched, the first rule that does not stay idle answers it, and
the rules behind lead to these names and to answers alone, the answer of that rule comes first. -/
theorem Run.Serves.expecting {opening : ActionId} (hengine : engine.Answering opening)
    {stage : Stage (World κ) RecordStore} {input : Payload} {e : OpenRequest}
    {others : List OpenRequest} {root : Record} {l : Loop (World κ) RecordStore}
    {last : Rule (World κ)} {f : Frame}
    (h : Run.Serves engine opening stage input e others root l last f) {route : String}
    (hpath : input.get? "path" = some (.string route)) {before after : List (Rule (World κ))}
    {rule : Rule (World κ)} (hrules : engine.rules = before ++ rule :: after)
    (hidle : ∀ r ∈ before, r.Idle opening root.input root.output) {p : Pattern} {g : Frame}
    (hpattern : rule.clauses.whenPatterns = [p])
    (hunify : p.unify? opening root.input root.output = some g) {answer : Payload}
    (hgives : rule.Gives engine.registry [g] e.id answer) {names : List String}
    (hlater : ∀ firing ∈ l.progress.run.firings opening root engine.rules, firing.1 ∈ after →
      (Work.evaluate firing.1 firing.2 root).LeadsTo engine.registry
        ("Requesting.respond" :: names)) :
    (l.afterMatching engine opening root).Expecting engine opening last f root others e route names
      answer [root] := by
  obtain ⟨hserving, hroutes⟩ := h.reached hengine hpath .refl
  have hjoins : l.progress.run.joins = [] := by rw [h.opened.run]; rfl
  obtain ⟨dropped, later, hfirings, hdropped, hafter⟩ :=
    Run.firings_of_idle after hjoins hidle hpattern hunify
  rw [← hrules] at hfirings
  have hnone : answersOf (l.afterMatching engine opening root).progress.records = [] := by
    rw [show (l.afterMatching _ _ root).progress.records = [root] from h.records]
    simp [answersOf, hserving.opens]
  refine ⟨hserving, hroutes, ?_, [], h.records, by simp⟩
  rw [hnone]
  simp only [Loop.afterMatching, hfirings, List.map_append, List.map_cons]
  refine .waiting (fun w hw => ?_) hgives ?_ (fun w hw => ?_)
  · obtain ⟨firing, hfiring, rfl⟩ := List.mem_map.mp hw
    exact .inl (hdropped firing hfiring)
  · rw [h.opened.isRoot.depth]
    exact hengine.deep
  · obtain ⟨firing, hfiring, rfl⟩ := List.mem_map.mp hw
    exact hlater firing (by simp [hfirings, hfiring]) (hafter firing hfiring)

private theorem Engine.Answering.reaches_past {opening : ActionId}
    (hengine : engine.Answering opening) {dropped : List (Rule (World κ) × List Frame)}
    (hrules : ∀ firing ∈ dropped, firing.1 ∈ engine.rules)
    (hdropped : ∀ firing ∈ dropped, ∀ world, (refine firing.1 firing.2 world).1 = .frames [])
    (trigger : Record) (rest : List (Work (World κ))) {p : Progress (World κ) RecordStore}
    (hgoes : p.run.cancel = none) :
    Loop.Reaches engine
      ⟨(dropped.map fun firing => .evaluate firing.1 firing.2 trigger) ++ rest, p⟩ ⟨rest, p⟩ := by
  induction dropped with
  | nil => exact .refl
  | cons firing more ih =>
    obtain ⟨hrule, hrules⟩ := List.forall_mem_cons.mp hrules
    obtain ⟨hfirst, hmore⟩ := List.forall_mem_cons.mp hdropped
    have hstep := step_dropped (hfirst p.stage.world) engine trigger
    rw [hengine.world_refine hrule] at hstep
    exact .head (Loop.turn_of_step hgoes rfl hstep) (ih hrules hmore)

theorem Run.Serves.reaches_expecting {opening : ActionId} (hengine : engine.Answering opening)
    {stage : Stage (World κ) RecordStore} {input : Payload} {e : OpenRequest}
    {others : List OpenRequest} {root : Record} {l : Loop (World κ) RecordStore}
    {last : Rule (World κ)} {f : Frame}
    (h : Run.Serves engine opening stage input e others root l last f) {route : String}
    (hpath : input.get? "path" = some (.string route)) {before after : List (Rule (World κ))}
    {rule : Rule (World κ)} (hrules : engine.rules = before ++ rule :: after)
    (hidle : ∀ r ∈ before, r.Idle opening root.input root.output) {p : Pattern} {g : Frame}
    (hpattern : rule.clauses.whenPatterns = [p])
    (hunify : p.unify? opening root.input root.output = some g) {left : List Frame}
    (hrefine : refine rule [g] l.progress.stage.world = (.frames left, l.progress.stage.world))
    {respond : ActionId} {answer : Payload} {more : List (ActionId × Payload)}
    (hinvocations : left.flatMap rule.invocations = (respond, answer) :: more)
    {names : List String}
    (hanswers : ∀ i ∈ (respond, answer) :: more,
      engine.registry.nameOf i.1 = "Requesting.respond")
    (hlater : ∀ firing ∈ l.progress.run.firings opening root engine.rules, firing.1 ∈ after →
      (Work.evaluate firing.1 firing.2 root).LeadsTo engine.registry
        ("Requesting.respond" :: names)) :
    ∃ l', Loop.Reaches engine (l.afterMatching engine opening root) l' ∧
      l'.Expecting engine opening last f root others e route names answer [root] := by
  have hrun := h.opened.run
  have hjoins : l.progress.run.joins = [] := by rw [hrun]; rfl
  have hgoes : l.progress.run.cancel = none := by rw [hrun]; rfl
  obtain ⟨dropped, later, hfirings, hdropped, hafter⟩ :=
    Run.firings_of_idle after hjoins hidle hpattern hunify
  rw [← hrules] at hfirings
  have hmatched : l.afterMatching engine opening root =
      ⟨(dropped.map fun firing => .evaluate firing.1 firing.2 root) ++
          .evaluate rule [g] root :: later.map fun firing => .evaluate firing.1 firing.2 root,
        l.progress.withRun (l.progress.run.matched opening root engine.rules)⟩ := by
    simp only [Loop.afterMatching, hfirings, List.map_append, List.map_cons]
  have hpast := hengine.reaches_past
    (fun firing hfiring => (Run.pattern_of_firing (hfirings ▸ List.mem_append_left _ hfiring)).1)
    hdropped root
    (.evaluate rule [g] root :: later.map fun firing => .evaluate firing.1 firing.2 root)
    (p := l.progress.withRun (l.progress.run.matched opening root engine.rules)) hgoes
  obtain ⟨run, -, -, hcancel, hevaluate⟩ := step_invoking
    (p := l.progress.withRun (l.progress.run.matched opening root engine.rules)) hrefine
    hinvocations engine root
  have hturn := Loop.turn_of_step (l := ⟨.evaluate rule [g] root ::
    later.map fun firing => .evaluate firing.1 firing.2 root,
    l.progress.withRun (l.progress.run.matched opening root engine.rules)⟩) hgoes rfl hevaluate
  rw [List.map_cons, List.cons_append] at hturn
  have hreach := hpast.tail hturn
  rw [← hmatched] at hreach
  obtain ⟨hserving, hroutes⟩ := h.reached hengine hpath hreach
  have hrecords : (l.progress.withRun run).records = [root] :=
    (congrArg l.progress.stage.store.readRun (Loop.continues_of_reaches hreach).id).trans h.records
  have hnone : answersOf [root] = [] := by simp [answersOf, hserving.opens]
  obtain ⟨hrespond, hmore⟩ := List.forall_mem_cons.mp hanswers
  refine ⟨_, hreach, hserving, hroutes, ?_, [], hrecords, by simp⟩
  change Expects _ _ _ _ _ (answersOf (l.progress.withRun run).records)
  rw [hrecords, hnone]
  refine .making hrespond ?_ fun w hw => ?_
  · rw [h.opened.isRoot.depth]
    exact hengine.deep
  · rcases List.mem_append.mp hw with hnew | hold
    · obtain ⟨i, hi, rfl⟩ := List.mem_map.mp hnew
      exact (hmore i hi).symm ▸ List.mem_cons_self ..
    · obtain ⟨firing, hfiring, rfl⟩ := List.mem_map.mp hold
      exact hlater firing (by simp [hfirings, hfiring]) (hafter firing hfiring)

end ConceptSync
