import ConceptSync.Proofs.Engine.SecondFiring
import ConceptSync.Proofs.Travel.Wiring

set_option autoImplicit false
set_option relaxedAutoImplicit false

/-!
What handlers pass on and answer, field by field: the action is given the user and the fields of the
request, and the answer repeats the fields of what the action did.
-/

namespace ConceptSync

namespace Travel

section Patterns

variable {p : Pattern} {fields : List (String × Var)}

private theorem get?_withInputs_of_mem (hnodup : (fields.map Prod.fst).Nodup) {e : String × Var}
    (he : e ∈ fields) : (withInputs p fields).input.get? e.1 = some (.var e.2) := by
  induction fields generalizing p with
  | nil => cases he
  | cons first rest ih =>
    obtain ⟨hfirst, hrest⟩ := List.nodup_cons.mp hnodup
    rcases List.mem_cons.mp he with rfl | he
    · exact get?_withInputs_self hfirst
    · exact ih hrest he

private theorem output_withOutputs {q : Pattern} (h : p.output = q.input)
    (fields : List (String × Var)) :
    (withOutputs p fields).output = (withInputs q fields).input := by
  induction fields generalizing p q with
  | nil => exact h
  | cons f rest ih =>
    have hnext : (p.withOutput f.1 (.var f.2)).output = (q.withInput f.1 (.var f.2)).input := by
      simp only [Pattern.withOutput, Pattern.withInput, h]
    exact ih hnext

private theorem outcome_withOutputs (hfields : "error" ∉ fields.map Prod.fst) :
    (withOutputs p fields).outcome = p.outcome := by
  induction fields generalizing p with
  | nil => rfl
  | cons f rest ih =>
    obtain ⟨hne, hrest⟩ := not_or.mp (mt List.mem_cons.mpr hfields)
    exact (ih hrest).trans (if_neg (Ne.symm hne))

private theorem perm_vars_withInputs (hnodup : (fields.map Prod.fst).Nodup) (hp : p.input = []) :
    (withInputs p fields).input.vars.Perm (fields.map Prod.snd) := by
  have hperm := (perm_withInputs (p := p) hnodup (by simp [hp, Table.keys])).map Prod.snd
  have hvars := hperm.filterMap Term.var?
  rw [hp, List.append_nil] at hvars
  refine hvars.trans (.of_eq ?_)
  rw [List.map_map, List.filterMap_map]
  exact congrFun List.filterMap_eq_map fields

end Patterns

namespace Handler

def success (h : Handler) (input output : Payload) : List (String × Value) :=
  h.answers.map fun e => (e.1, ((if h.fromOutput then output else input).get? e.2).getD .null)

def answered (h : Handler) (input output : Payload) : List (String × Value) :=
  match output.get? "error" with
  | some error => [("error", error)]
  | none => h.success input output

def responder (h : Handler) (output : Payload) : Source :=
  if output.isError then .answerError h else .answerSuccess h

end Handler

variable {registry : Registry TravelWorld} {rule : Rule TravelWorld} {h : Handler}

namespace RespondsTo

variable {route : String} {request : Var} {done : Pattern} {fields : List (String × Var)}
  {opening respond : ActionId}

theorem unify_opening (request : Var) {input : Payload}
    (hpath : input.get? "path" = some (.string route)) (id : String) :
    (withOutputs ((Pattern.of opening).withInput "path" (.literal (.string route)))
      [("request", request)]).unify? opening input (.single "request" (.string id)) =
        some [(request, .string id)] := by
  simp [Pattern.unify?, withOutputs, Pattern.withOutput, Pattern.withInput, Pattern.of,
    Table.insert, OutcomeFilter.admits, Frame.match?, Frame.matchFields, Frame.bind?, Frame.empty,
    Table.get?, Payload.single, hpath, Value.equals]

theorem fires (hp : RespondsTo registry route rule request done fields opening respond)
    {run : Run TravelWorld} {k : Nat} {seq : Int} {id : String}
    (hstate : run.joinState k rule = ⟨[[⟨seq, [(request, .string id)]⟩], []]⟩)
    {action : ActionId} {record : Record} (hseq : seq ≠ record.seq) (hother : action ≠ opening)
    {g : Frame} (hdone : done.unify? action record.input record.output = some g)
    (hfree : g.get? request = none) :
    (run.offered action record k rule).1.map Joined.frame = [g.insert request (.string id)] := by
  refine Run.offered_of_second hstate hseq hp.whenPatterns ?_ hdone ?_
  · unfold Pattern.unify?
    rw [(action_withOutputs _ _).1]
    exact if_pos (Ne.symm hother)
  · simp [Frame.merge?, Frame.bindAll?, Frame.bind?, hfree]

theorem gives (hp : RespondsTo registry route rule request done fields opening respond)
    {f : Frame} {id : String} (hrequest : f.get? request = some (.string id))
    {entries : List (String × Value)} (hsaid : List.Forall₂ (Frame.Says f) fields entries) :
    rule.Gives registry [f] id (Table.ofList (("request", .string id) :: entries)) := by
  intro world _
  have hall : List.Forall₂ (Frame.Says f) (("request", request) :: fields)
      (("request", .string id) :: entries) := .cons ⟨rfl, hrequest⟩ hsaid
  have hresolve := resolve_withInputs (p := .of respond) (t := []) rfl hall
  refine ⟨f, respond, refine_of_no_clause _ _ (by rw [hp.whereClause]; rfl), ?_, ?_⟩
  · simp only [Rule.invocations, hp.thenPatterns, Frame.resolveAll, hresolve,
      (action_withInputs _ _).1]
    rfl
  · rw [Registry.nameOf_of_action hp.responds]
    rfl

end RespondsTo

section Done

variable {action : ActionId} {vars : List Var} {input output : Payload}

private theorem match_binding (action : ActionId) (payload : Payload)
    {fields : List (String × Var)} {f : Frame} (hnodup : (fields.map Prod.fst).Nodup)
    (hvars : (fields.map Prod.snd).Nodup)
    (hfree : ∀ v ∈ fields.map Prod.snd, f.get? v = none)
    (hthere : ∀ e ∈ fields, (payload.get? e.1).isSome = true) :
    ∃ g, f.match? (withInputs (.of action) fields).input payload = some g ∧
      (∀ e ∈ fields, g.get? e.2 = payload.get? e.1) ∧
      ∀ v, v ∉ fields.map Prod.snd → g.get? v = f.get? v := by
  have hperm := perm_vars_withInputs (p := .of action) hnodup rfl
  have hdistinct := hperm.nodup_iff.mpr hvars
  have hunbound : ∀ v ∈ (withInputs (.of action) fields).input.vars, f.get? v = none :=
    fun v hv => hfree v (hperm.mem_iff.mp hv)
  have hadmits : (withInputs (.of action) fields).input.Admits payload :=
    (Template.admits_vars hthere (Template.admits_nil payload)).perm
      (perm_withInputs hnodup (by simp [Pattern.of, Table.keys]))
  obtain ⟨g, hg⟩ := Frame.match?_complete hadmits hdistinct hunbound
  obtain ⟨hexact, hothers⟩ := Frame.match?_exact hg hdistinct hunbound
  refine ⟨g, hg, fun e he => ?_, fun v hv => hothers v (mt hperm.mem_iff.mp hv)⟩
  exact hexact _ (Table.mem_of_get? (get?_withInputs_of_mem hnodup he)) e.2 rfl

private theorem Handler.unify_done (action : ActionId)
    (hfields : ("error" :: h.answers.map Prod.snd).Nodup)
    (hvars : vars.Nodup) (hlength : vars.length = h.answers.length)
    (hok : output.isError = false)
    (hthere : ∀ e ∈ h.answers,
      ((if h.fromOutput then output else input).get? e.2).isSome = true) :
    ∃ g, (h.done action vars).unify? action input output = some g ∧
      (∀ e ∈ (h.answers.map Prod.snd).zip vars,
        g.get? e.2 = (if h.fromOutput then output else input).get? e.1) ∧
      ∀ v, v ∉ vars → g.get? v = none := by
  obtain ⟨hnew, hnodup⟩ := List.nodup_cons.mp hfields
  have hsame : (h.answers.map Prod.snd).length = vars.length := by simp [hlength]
  have hnames : ((h.answers.map Prod.snd).zip vars).map Prod.fst = h.answers.map Prod.snd :=
    List.map_fst_zip (Nat.le_of_eq hsame)
  have hbound : ((h.answers.map Prod.snd).zip vars).map Prod.snd = vars :=
    List.map_snd_zip (Nat.le_of_eq hsame.symm)
  obtain ⟨g, hmatch, hexact, hfree⟩ := match_binding (f := .empty) action
    (if h.fromOutput then output else input) (hnames.symm ▸ hnodup)
    (hbound.symm ▸ hvars) (fun _ _ => rfl) fun e he => by
      have hfield := List.mem_map_of_mem (f := Prod.fst) he
      rw [hnames] at hfield
      obtain ⟨d, hd, heq⟩ := List.mem_map.mp hfield
      exact heq ▸ hthere d hd
  refine ⟨g, ?_, hexact, fun v hv => hfree v (hbound.symm ▸ hv)⟩
  unfold Pattern.unify?
  rw [h.action_done, if_neg (not_not.mpr rfl)]
  unfold Handler.done
  cases hfrom : h.fromOutput with
  | true =>
    simp only [hfrom, if_true] at hmatch ⊢
    rw [outcome_withOutputs (hnames.symm ▸ hnew), (action_withOutputs _ _).2,
      output_withOutputs (q := .of action) rfl]
    exact hmatch
  | false =>
    simp only [hfrom, Bool.false_eq_true, if_false] at hmatch ⊢
    simp only [Pattern.succeeded, OutcomeFilter.admits, hok, hmatch, (action_withInputs _ _).2.1]
    rfl

private theorem Handler.unify_done_of_error (hfields : ("error" :: h.answers.map Prod.snd).Nodup)
    (hsome : h.answers ≠ []) (hlength : vars.length = h.answers.length) (a : ActionId)
    (message : String) : (h.done action vars).unify? a input (.error message) = none := by
  obtain ⟨hnew, hnodup⟩ := List.nodup_cons.mp hfields
  cases hunify : (h.done action vars).unify? a input (.error message) with
  | none => rfl
  | some g =>
    cases hfrom : h.fromOutput with
    | false =>
      simp [Pattern.unify?, Handler.done, hfrom, Pattern.succeeded, OutcomeFilter.admits,
        Payload.isError, Payload.error, Payload.single, Table.contains, Table.get?] at hunify
    | true =>
      obtain ⟨a, later, hanswers⟩ := List.exists_cons_of_ne_nil hsome
      obtain ⟨v, vars', rfl⟩ := List.exists_cons_of_length_eq_add_one (hanswers ▸ hlength)
      have hnames : ((h.answers.map Prod.snd).zip (v :: vars')).map Prod.fst =
          h.answers.map Prod.snd := List.map_fst_zip (by simp [hlength])
      have hfirst : (a.2, v) ∈ (h.answers.map Prod.snd).zip (v :: vars') := by simp [hanswers]
      obtain ⟨_, _, hfits⟩ := Pattern.unify?_sound hunify
      simp only [Handler.done, hfrom, if_true] at hfits
      rw [output_withOutputs (q := .of action) rfl] at hfits
      obtain ⟨actual, hactual, _⟩ := hfits _
        (Table.mem_of_get? (get?_withInputs_of_mem (hnames.symm ▸ hnodup) hfirst))
      have hne : a.2 ≠ "error" := fun heq =>
        hnew (List.mem_map.mpr ⟨a, by simp [hanswers], heq⟩)
      simp [Payload.error, Payload.single, Table.get?, Ne.symm hne] at hactual

private theorem unify_failed (action : ActionId) (error : Var) (input : Payload)
    (message : String) :
    (withOutputs (.of action) [("error", error)]).unify? action input (.error message) =
      some [(error, .string message)] := by
  simp [Pattern.unify?, withOutputs, Pattern.withOutput, Pattern.of, Table.insert,
    OutcomeFilter.admits, Frame.match?, Frame.matchFields, Frame.bind?, Frame.empty, Table.get?,
    Payload.error, Payload.single, Payload.isError, Table.contains]

def Handler.Completed (h : Handler) (input output : Payload) : Prop :=
  (∃ message, output = .error message) ∨ output.isError = false ∧
    ∀ e ∈ h.answers, ((if h.fromOutput then output else input).get? e.2).isSome = true

private theorem answers_of_handler : ∀ h ∈ handlers,
    ("error" :: h.answers.map Prod.snd).Nodup ∧ ("request" :: h.answers.map Prod.snd).Nodup ∧
      h.answers ≠ [] := by
  decide

theorem respondsTo_responder (hh : h ∈ handlers) (hcompleted : h.Completed input output)
    (hbuilds : (h.responder output).definition.Builds registry rule) :
    ∃ request done fields opening respond g,
      RespondsTo registry h.path rule request done fields opening respond ∧
      registry.action h.concept h.action = .ok done.action ∧
      done.unify? done.action input output = some g ∧ g.get? request = none ∧
      List.Forall₂ (Frame.Says g) fields (h.answered input output) := by
  obtain ⟨hfields, hrequest, _⟩ := answers_of_handler h hh
  rcases hcompleted with ⟨message, rfl⟩ | ⟨hok, hthere⟩
  · obtain ⟨request, error, opening, respond, action, haction, hne, hp⟩ :=
      respondsTo_answerError hbuilds
    refine ⟨request, _, _, opening, respond, _, hp, haction, unify_failed action error input message,
      ?_, .cons ⟨rfl, ?_⟩ .nil⟩
    · simp [Table.get?, hne]
    · simp [Table.get?]
  · have hbuilds : h.answerSuccess.Builds registry rule := by
      simpa [Handler.responder, hok, Source.definition] using hbuilds
    obtain ⟨request, vars, opening, respond, action, haction, hnodup, hlength, hp⟩ :=
      respondsTo_answerSuccess hrequest hbuilds
    obtain ⟨hnew, hvars⟩ := List.nodup_cons.mp hnodup
    obtain ⟨g, hunify, hexact, hfree⟩ :=
      h.unify_done action hfields hvars hlength hok hthere
    have hnone : output.get? "error" = none := by
      simpa [Payload.isError, Table.contains] using hok
    refine ⟨request, _, _, opening, respond, g, hp, by rw [h.action_done]; exact haction,
      by rw [h.action_done]; exact hunify, hfree _ hnew, ?_⟩
    unfold Handler.answered
    rw [hnone]
    refine forall₂_says Prod.fst (fun e =>
      ((if h.fromOutput then output else input).get? e.2).getD .null) hlength fun e he => ?_
    obtain ⟨actual, hactual⟩ := Option.isSome_iff_exists.mp (hthere e.1 (List.of_mem_zip he).1)
    rw [hactual]
    refine (hexact (e.1.2, e.2) ?_).trans hactual
    rw [List.zip_map_left]
    exact List.mem_map.mpr ⟨e, he, rfl⟩

theorem unify_of_not_responder (hh : h ∈ handlers) (hcompleted : h.Completed input output)
    {s : Source} (hs : s = .answerSuccess h ∨ s = .answerError h) (hother : s ≠ h.responder output)
    (hbuilds : s.definition.Builds registry rule)
    (haction : registry.nameOf action = h.operation) :
    ∀ p ∈ rule.clauses.whenPatterns, p.unify? action input output = none := by
  obtain ⟨hfields, hrequest, hsome⟩ := answers_of_handler h hh
  have hopening {route : String} {request : Var} {done : Pattern} {fields : List (String × Var)}
      {opening respond : ActionId}
      (hp : RespondsTo registry route rule request done fields opening respond)
      (hdone : done.unify? action input output = none) :
      ∀ p ∈ rule.clauses.whenPatterns, p.unify? action input output = none := by
    rw [hp.whenPatterns, List.forall_mem_cons, List.forall_mem_singleton]
    refine ⟨if_pos ?_, hdone⟩
    rw [(action_withOutputs _ _).1]
    rintro rfl
    exact (not_mem_consequences h hh).2.2
      (haction.symm.trans (Registry.nameOf_of_action hp.listens))
  rcases hs with rfl | rfl
  · rcases hcompleted with ⟨message, rfl⟩ | ⟨hok, _⟩
    · obtain ⟨_, vars, _, _, _, _, _, hlength, hp⟩ := respondsTo_answerSuccess hrequest hbuilds
      exact hopening hp (h.unify_done_of_error hfields hsome hlength action message)
    · exact absurd (by simp [Handler.responder, hok]) hother
  · rcases hcompleted with ⟨message, rfl⟩ | ⟨hok, _⟩
    · exact absurd rfl hother
    · obtain ⟨_, _, _, _, _, _, _, hp⟩ := respondsTo_answerError hbuilds
      refine hopening hp ?_
      simp [Pattern.unify?, withOutputs, Pattern.withOutput, OutcomeFilter.admits, hok]

end Done

def unhandled (route : String) : List (String × Value) :=
  [("error", .string ("No handler for " ++ route)), ("status", .ofInt 404)]

theorem gives_unhandled (hoperates : Operates registry) {opening : ActionId}
    (hopening : registry.action "Requesting" "request" = .ok opening)
    (hbuilds : unhandledRequest.Builds registry rule) {input : Payload} {route : String}
    (hpath : input.get? "path" = some (.string route)) (id : String) :
    ∃ p f, rule.clauses.whenPatterns = [p] ∧
      p.unify? opening input (.single "request" (.string id)) = some f ∧
      rule.Gives registry [f] id (Table.ofList (("request", .string id) :: unhandled route)) := by
  refine hbuilds.elim_three rfl (by decide) fun request path error hpathVar herror _ => ?_
  refine ensures_queryOf fun q hq => ensures_actionPattern fun opening' hopening' => ?_
  refine ensures_respond fun respond hrespond => .pure ?_
  intro rule hclauses
  obtain rfl : opening' = opening := Except.ok.inj (hopening'.symm.trans hopening)
  have hstring : input.string? "path" = some route := by
    simp [Payload.string?, hpath, Value.asString?]
  obtain ⟨f, hunify⟩ := unify_opened opening' hpathVar hstring id
  have hexact := Pattern.unify?_exact hunify (by
    simpa [Pattern.vars, Template.vars, Table.values, withInputs, withOutputs, Pattern.withInput,
      Pattern.withOutput, Pattern.of, Table.insert, Term.var?] using hpathVar)
  have hroute : f.get? path = some (.string route) :=
    (hexact.1 ("path", .var path) (List.mem_cons_self ..) path rfl).trans hpath
  have hid : f.get? request = some (.string id) :=
    hexact.2.1 ("request", .var request) (List.mem_cons_self ..) request rfl
  refine ⟨_, f, by rw [hclauses], hunify, fun world hunanswered => ?_⟩
  have hleft := unanswered_eq hoperates hq hid hunanswered path error
  rw [Frame.text?, hroute] at hleft
  let g := Table.insert f error (.string ("No handler for " ++ route))
  have hsaid : List.Forall₂ (Frame.Says g) [("request", request), ("error", error)]
      [("request", .string id), ("error", .string ("No handler for " ++ route))] := by
    refine .cons ⟨rfl, ?_⟩ (.cons ⟨rfl, Table.get?_insert_self _ _ _⟩ .nil)
    rw [Table.get?_insert, if_neg herror, hid]
  have hstatus : Frame.resolveTerm g (.literal (.ofInt 404)) = .ok (.ofInt 404) := rfl
  have hresolve := Frame.resolve_insert (resolve_withInputs (p := .of respond) (t := []) rfl
    hsaid) hstatus "status"
  refine ⟨g, respond, ?_, ?_, ?_⟩
  · simp only [refine, hclauses, hleft]
    rfl
  · simp only [Rule.invocations, hclauses, Frame.resolveAll, Pattern.withInput, hresolve,
      (action_withInputs _ _).1]
    rfl
  · rw [Registry.nameOf_of_action hrespond]
    rfl

end Travel

end ConceptSync
