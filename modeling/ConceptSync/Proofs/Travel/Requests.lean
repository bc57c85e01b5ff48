import ConceptSync.Proofs.Engine.FirstFiring
import ConceptSync.Proofs.Frame.Templates
import ConceptSync.Proofs.Travel.Rules

set_option autoImplicit false
set_option relaxedAutoImplicit false

/-!
Which requests a handler passes on, and what the action is given: the user of the request in the
field of the actor, and the other fields as they are.
-/

namespace ConceptSync

namespace Travel

/-- A request that a handler passes on: it is for the handler's route, has the fields that the
handler needs, and names a user. -/
structure Handler.Accepts (h : Handler) (input : Payload) : Prop where
  path : input.get? "path" = some (.string h.path)
  given : ∀ field ∈ h.given, (input.get? field).isSome = true
  user : ∃ user, input.get? "user" = some user ∧ user ≠ .null

def Handler.passes (h : Handler) (user : Value) (request : Payload) : Payload :=
  Table.ofList ((h.actor.toList.map fun field => (field, user)) ++
    h.given.map fun field => (field, (request.get? field).getD .null))

theorem fields_of_handler : ∀ h ∈ handlers, ("path" :: "user" :: h.given).Nodup ∧
    ∀ field ∈ identityFields, field ∉ h.given := by decide

section Resolving

variable {f : Frame}

def Frame.Says (f : Frame) (e : String × Var) (d : String × Value) : Prop :=
  e.1 = d.1 ∧ f.get? e.2 = some d.2

theorem resolve_withInputs {p : Pattern} {t : Payload} {fields : List (String × Var)}
    {entries : List (String × Value)} (hp : f.resolve p.input = .ok t)
    (hsaid : List.Forall₂ (Frame.Says f) fields entries) :
    f.resolve (withInputs p fields).input =
      .ok (entries.foldl (fun t e => t.insert e.1 e.2) t) := by
  induction hsaid generalizing p t with
  | nil => exact hp
  | @cons e d _ _ hfirst _ ih =>
    obtain ⟨hname, hvalue⟩ := hfirst
    have hterm : f.resolveTerm (.var e.2) = .ok d.2 := by simp [Frame.resolveTerm, hvalue]
    refine ih (p := p.withInput e.1 (.var e.2)) ?_
    change f.resolve (p.input.insert e.1 (.var e.2)) = .ok (t.insert d.1 d.2)
    rw [← hname]
    exact Frame.resolve_insert hp hterm e.1

theorem invocations_withInputs {rule : Rule TravelWorld} {id : ActionId}
    {fields : List (String × Var)} {entries : List (String × Value)}
    (hthen : rule.clauses.thenPatterns = [withInputs (.of id) fields])
    (hsaid : List.Forall₂ (Frame.Says f) fields entries) :
    rule.invocations f = [(id, Table.ofList entries)] := by
  have hresolve := resolve_withInputs (p := .of id) (t := []) rfl hsaid
  simp only [Rule.invocations, hthen, Frame.resolveAll, hresolve, (action_withInputs _ _).1]
  rfl

theorem forall₂_says {α : Type} (name : α → String) (value : α → Value) {items : List α}
    {vars : List Var} (hlength : vars.length = items.length)
    (h : ∀ e ∈ items.zip vars, f.get? e.2 = some (value e.1)) :
    List.Forall₂ (Frame.Says f) ((items.map name).zip vars)
      (items.map fun a => (name a, value a)) := by
  induction items generalizing vars with
  | nil => exact .nil
  | cons a rest ih =>
    obtain ⟨v, later, rfl⟩ := List.exists_cons_of_length_eq_add_one hlength
    obtain ⟨hfirst, hrest⟩ := List.forall_mem_cons.mp h
    exact .cons ⟨rfl, hfirst⟩ (ih (Nat.succ.inj hlength) hrest)

end Resolving

namespace PassesOn

variable {registry : Registry TravelWorld} {h : Handler} {rule : Rule TravelWorld} {user : Var}
  {given : List Var} {request action : ActionId}

def pattern (h : Handler) (user : Var) (given : List Var) (request : ActionId) : Pattern :=
  withInputs ((Pattern.of request).withInput "path" (.literal (.string h.path)))
    (("user", user) :: h.given.zip given)

private theorem perm_template (hfields : ("path" :: "user" :: h.given).Nodup)
    (hlength : given.length = h.given.length) (user : Var) (request : ActionId) :
    (pattern h user given request).input.Perm
      ((("user", user) :: h.given.zip given).map (fun f => (f.1, .var f.2)) ++
        [("path", .literal (.string h.path))]) := by
  have hnames : (h.given.zip given).map Prod.fst = h.given :=
    List.map_fst_zip (Nat.le_of_eq hlength.symm)
  obtain ⟨hpath, hnodup⟩ := List.nodup_cons.mp hfields
  refine perm_withInputs ?_ ?_
  · rw [List.map_cons, hnames]
    exact hnodup
  · intro f hf hkey
    have hname : f.1 ∈ "user" :: h.given := by
      rw [← hnames]
      exact List.mem_map_of_mem (f := Prod.fst) hf
    have heq : f.1 = "path" := List.mem_singleton.mp hkey
    exact hpath (heq ▸ hname)

private theorem vars_fields (fields : List (String × Var)) :
    Template.vars (fields.map fun f => (f.1, .var f.2)) = fields.map Prod.snd := by
  induction fields with
  | nil => rfl
  | cons f rest ih => exact congrArg (f.2 :: ·) ih

theorem path_mem_input (hfields : ("path" :: "user" :: h.given).Nodup)
    (hp : PassesOn registry h rule user given request action) :
    ("path", Term.literal (.string h.path)) ∈ (pattern h user given request).input :=
  (perm_template hfields hp.length user request).mem_iff.mpr (by simp)

theorem matched (hfields : ("path" :: "user" :: h.given).Nodup)
    (hp : PassesOn registry h rule user given request action) {a : ActionId}
    {input output : Payload} {f : Frame}
    (hunify : (pattern h user given request).unify? a input output = some f) :
    a = request ∧ input.get? "path" = some (.string h.path) ∧
      (∀ field ∈ h.given, (input.get? field).isSome = true) ∧
      ∃ actual, input.get? "user" = some actual ∧ f.Agrees (.var user) actual := by
  have hmem : ∀ e, e ∈ (pattern h user given request).input ↔ _ :=
    fun e => (perm_template hfields hp.length user request).mem_iff
  obtain ⟨haction, hfits, _⟩ := Pattern.unify?_sound hunify
  refine ⟨haction.symm.trans (action_withInputs _ _).1, ?_, fun field hfield => ?_, ?_⟩
  · obtain ⟨actual, hactual, hagrees⟩ := hfits _ (hp.path_mem_input hfields)
    rw [hactual, Value.equals_string_left.mp hagrees]
  · rw [← List.map_fst_zip (Nat.le_of_eq hp.length.symm)] at hfield
    obtain ⟨e, he, rfl⟩ := List.mem_map.mp hfield
    obtain ⟨actual, hactual, _⟩ := hfits (e.1, .var e.2) ((hmem _).mpr
      (List.mem_append_left _ (List.mem_map_of_mem (List.mem_cons_of_mem _ he))))
    rw [hactual]
    rfl
  · exact hfits ("user", .var user) ((hmem _).mpr (by simp))

private theorem nodup_vars (hfields : ("path" :: "user" :: h.given).Nodup)
    (hp : PassesOn registry h rule user given request action) :
    (pattern h user given request).vars.Nodup := by
  have hperm := ((perm_template hfields hp.length user request).map Prod.snd).filterMap Term.var?
  rw [List.map_append, List.filterMap_append] at hperm
  unfold Pattern.vars
  rw [show (pattern h user given request).output = [] from (action_withInputs _ _).2.1]
  refine ((List.Perm.of_eq (List.append_nil _)).trans
    (hperm.trans (.of_eq (List.append_nil _)))).nodup_iff.mpr ?_
  have hvars : (("user", user) :: h.given.zip given).map Prod.snd = user :: given := by
    rw [List.map_cons, List.map_snd_zip (Nat.le_of_eq hp.length)]
  change (Template.vars _).Nodup
  rw [vars_fields, hvars]
  exact hp.nodup

private theorem bound_exactly (hfields : ("path" :: "user" :: h.given).Nodup)
    (hp : PassesOn registry h rule user given request action) {a : ActionId}
    {input output : Payload} {f : Frame}
    (hunify : (pattern h user given request).unify? a input output = some f) :
    f.get? user = input.get? "user" ∧ ∀ e ∈ h.given.zip given, f.get? e.2 = input.get? e.1 := by
  have hmem := fun e => (perm_template hfields hp.length user request).mem_iff (a := e)
  obtain ⟨hexact, _⟩ := Pattern.unify?_exact hunify (nodup_vars hfields hp)
  refine ⟨hexact ("user", .var user) ((hmem _).mpr (by simp)) user rfl, fun e he => ?_⟩
  exact hexact (e.1, .var e.2) ((hmem _).mpr (List.mem_append_left _
    (List.mem_map_of_mem (List.mem_cons_of_mem _ he)))) e.2 rfl

private theorem unify_of_accepts (hfields : ("path" :: "user" :: h.given).Nodup)
    (hp : PassesOn registry h rule user given request action) {input : Payload}
    (haccepts : h.Accepts input) (output : Payload) :
    ∃ f, (pattern h user given request).unify? request input output = some f := by
  have hperm := perm_template hfields hp.length user request
  obtain ⟨haction, houtput, houtcome⟩ := action_withInputs
    ((Pattern.of request).withInput "path" (.literal (.string h.path)))
    (("user", user) :: h.given.zip given)
  have hadmits : (pattern h user given request).input.Admits input := by
    refine (Template.admits_vars (fun e he => ?_) ?_).perm hperm
    · rcases List.mem_cons.mp he with rfl | he
      · exact Option.isSome_iff_exists.mpr (haccepts.user.imp fun _ h => h.1)
      · exact haccepts.given e.1 (List.of_mem_zip he).1
    · exact Template.admits_literal haccepts.path (Value.equals_string_left.mpr rfl)
        (Template.admits_nil input)
  have hcomplete := Pattern.unify?_complete (p := pattern h user given request) output
    (houtcome ▸ rfl) (nodup_vars hfields hp) hadmits (houtput ▸ Template.admits_nil output)
  rw [show (pattern h user given request).action = request from haction] at hcomplete
  exact hcomplete

theorem refine_eq (hp : PassesOn registry h rule user given request action) (f : Frame)
    (world : TravelWorld) :
    refine rule [f] world = (.frames (if f.isPresent user then [f] else []), world) := by
  have hfilter : [f].filter (fun f => f.isPresent user) = if f.isPresent user then [f] else [] := by
    cases hpresent : f.isPresent user <;> simp [hpresent]
  unfold refine
  rw [hp.whereClause, ← hfilter]
  rfl

theorem eq_of_left (hp : PassesOn registry h rule user given request action) {f g : Frame}
    {world after : TravelWorld} {left : List Frame}
    (hrefine : refine rule [f] world = (.frames left, after)) (hg : g ∈ left) :
    g = f ∧ f.isPresent user = true := by
  rw [hp.refine_eq] at hrefine
  cases hrefine
  split at hg
  · next hpresent => exact ⟨List.mem_singleton.mp hg, hpresent⟩
  · cases hg

theorem invocation (hfields : ∀ field ∈ identityFields, field ∉ h.given)
    (hp : PassesOn registry h rule user given request action) {f : Frame} {i : ActionId × Payload}
    (hi : i ∈ rule.invocations f) :
    i.1 = action ∧ ∀ field ∈ identityFields, ∀ value, i.2.get? field = some value →
      f.get? user = some value := by
  obtain ⟨p, hp', haction, hresolve⟩ := Rule.mem_invocations hi
  rw [hp.thenPatterns] at hp'
  obtain rfl := List.mem_singleton.mp hp'
  refine ⟨haction.trans (action_withInputs _ _).1, fun field hfield value hvalue => ?_⟩
  obtain ⟨term, hterm, hsaid⟩ := Frame.mem_resolve hresolve _ (Table.mem_of_get? hvalue)
  rcases mem_withInputs hterm with hold | ⟨v, hv, rfl⟩
  · cases hold
  · rcases List.mem_append.mp hv with hactor | hgiven
    · obtain ⟨actor, _, heq⟩ := List.mem_map.mp hactor
      cases heq
      simp only [Frame.resolveTerm] at hsaid
      split at hsaid
      · next bound hbound =>
        cases hsaid
        exact hbound
      · cases hsaid
    · exact absurd (List.of_mem_zip hgiven).1 (hfields field hfield)

private theorem invocations_eq (hfields : ("path" :: "user" :: h.given).Nodup)
    (hp : PassesOn registry h rule user given request action) {a : ActionId}
    {input output : Payload} {f : Frame}
    (hunify : (pattern h user given request).unify? a input output = some f) {value : Value}
    (hvalue : input.get? "user" = some value) :
    rule.invocations f = [(action, h.passes value input)] := by
  obtain ⟨_, _, hthere, _⟩ := hp.matched hfields hunify
  obtain ⟨huser, hgiven⟩ := hp.bound_exactly hfields hunify
  rw [hvalue] at huser
  have hactor : List.Forall₂ (Frame.Says f) (h.actor.toList.map fun field => (field, user))
      (h.actor.toList.map fun field => (field, value)) :=
    List.forall₂_map_left_iff.mpr (List.forall₂_map_right_iff.mpr
      (List.forall₂_same.mpr fun _ _ => ⟨rfl, huser⟩))
  have hothers : List.Forall₂ (Frame.Says f) (h.given.zip given)
      (h.given.map fun field => (field, (input.get? field).getD .null)) := by
    have hsaid := forall₂_says (f := f) id (fun field => (input.get? field).getD .null) hp.length
      fun e he => by
        obtain ⟨said, hthat⟩ := Option.isSome_iff_exists.mp (hthere e.1 (List.of_mem_zip he).1)
        rw [hgiven e he, hthat]
        rfl
    rwa [List.map_id] at hsaid
  have hresolve := resolve_withInputs (p := .of action) (t := []) rfl
    (List.rel_append hactor hothers)
  simp only [Rule.invocations, hp.thenPatterns, Frame.resolveAll, hresolve,
    (action_withInputs _ _).1]
  rfl

private theorem fires (hfields : ("path" :: "user" :: h.given).Nodup)
    (hp : PassesOn registry h rule user given request action) {input : Payload}
    (haccepts : h.Accepts input) (output : Payload) :
    ∃ f value, input.get? "user" = some value ∧
      (pattern h user given request).unify? request input output = some f ∧
      (∀ world, refine rule [f] world = (.frames [f], world)) ∧
      rule.invocations f = [(action, h.passes value input)] := by
  obtain ⟨f, hunify⟩ := unify_of_accepts hfields hp haccepts output
  obtain ⟨_, _, _, actual, hactual, hagrees⟩ := matched hfields hp hunify
  obtain ⟨value, hvalue, hnull⟩ := haccepts.user
  rw [hvalue] at hactual
  cases hactual
  have hpresent := hagrees.present hnull
  exact ⟨f, _, hvalue, hunify, fun world => by rw [hp.refine_eq, if_pos hpresent],
    invocations_eq hfields hp hunify hvalue⟩

end PassesOn

def Source.takes? : Source → Option String
  | passOn h => some h.path
  | lookup l => some l.path
  | getTripsByUser => some "/TripPlanning/_getTripsByUser"
  | requireUser | createItineraryForTrip | createPollForEvent | attachPollToEvent
  | createExpenseForApprovedEvent | answerSuccess _ | answerError _ | unhandledRequest => none

theorem Source.passOn_mem_earlier : ∀ h ∈ handlers, passOn h ∈ earlier := by decide +kernel

theorem Source.eq_of_takes? : ∀ s ∈ earlier, ∀ t ∈ earlier, ∀ route ∈ s.takes?,
    t.takes? = some route → t = s := by
  decide +kernel

variable {registry : Registry TravelWorld} {rule : Rule TravelWorld} {h : Handler}
  {request : ActionId} {input output : Payload}

private theorem idle_of_route {p : Pattern} {path route : String}
    (hpattern : rule.clauses.whenPatterns = [p])
    (hpath : ("path", Term.literal (.string path)) ∈ p.input)
    (hroute : input.get? "path" = some (.string route)) (hne : path ≠ route) (action : ActionId) :
    rule.Idle action input output := by
  refine .unmatched fun q hq => ?_
  rw [hpattern] at hq
  obtain rfl := List.mem_singleton.mp hq
  cases hunify : q.unify? action input output with
  | none => rfl
  | some f =>
    obtain ⟨_, hfits, _⟩ := Pattern.unify?_sound hunify
    obtain ⟨actual, hactual, hagrees⟩ := hfits _ hpath
    rw [hroute] at hactual
    cases hactual
    exact absurd (Value.string.inj (Value.equals_string_left.mp hagrees)).symm hne

theorem Source.idle_of_request {s : Source} (hs : s ∈ earlier) {route : String}
    (hother : s.takes? ≠ some route) (hshape : s.Shape registry rule)
    (hrequest : registry.action "Requesting" "request" = .ok request)
    (hroute : input.get? "path" = some (.string route))
    (huser : ∃ user, input.get? "user" = some user ∧ user ≠ .null) :
    rule.Idle request input output := by
  have hwires : Wires registry rule → rule.Idle request input output := by
    intro hwires
    refine .unmatched fun p hp => ?_
    cases hunify : p.unify? request input output with
    | none => rfl
    | some f =>
      have hacts := hwires.whenPatterns p hp
      rw [(Pattern.unify?_sound hunify).1, Registry.nameOf_of_action hrequest] at hacts
      exact absurd hacts (by decide)
  have hserves : ∀ path, ServesRoute path rule → path ≠ route →
      rule.Idle request input output := fun path ⟨p, hpattern, hpath⟩ hne =>
    idle_of_route hpattern hpath hroute hne request
  cases s with
  | requireUser =>
    obtain ⟨_, p, user, hpattern, hterm, hdrops⟩ := hshape
    refine .dropped p hpattern fun f hunify world => hdrops f ?_ world
    obtain ⟨_, hfits, _⟩ := Pattern.unify?_sound hunify
    obtain ⟨actual, hactual, hagrees⟩ := hfits _ hterm
    obtain ⟨value, hvalue, hnull⟩ := huser
    rw [hvalue] at hactual
    cases hactual
    exact hagrees.present hnull
  | createItineraryForTrip => exact hwires hshape
  | createPollForEvent => exact hwires hshape
  | attachPollToEvent => exact hwires hshape
  | createExpenseForApprovedEvent => exact hwires hshape
  | passOn h =>
    obtain ⟨user, given, request', action, hp⟩ := hshape
    have hknown : h ∈ handlers := known_of_mem (.passOn h) (List.mem_append_left _ hs)
    exact idle_of_route hp.whenPatterns (hp.path_mem_input (fields_of_handler h hknown).1) hroute
      (fun heq => hother (congrArg some heq)) request
  | answerSuccess h => exact .waiting hshape.2
  | answerError h => exact .waiting hshape.2
  | lookup l => exact hserves l.path hshape.2 fun heq => hother (congrArg some heq)
  | getTripsByUser => exact hserves _ hshape.2 fun heq => hother (congrArg some heq)
  | unhandledRequest => exact absurd hs (by decide +kernel)

theorem PassesOn.idle_of_missing {user : Var} {given : List Var} {request' action : ActionId}
    (hp : PassesOn registry h rule user given request' action)
    (hfields : ("path" :: "user" :: h.given).Nodup)
    (hmissing : ∃ field ∈ h.given, input.get? field = none) :
    rule.Idle request input output := by
  refine .unmatched fun q hq => ?_
  rw [hp.whenPatterns] at hq
  obtain rfl := List.mem_singleton.mp hq
  cases hunify : (PassesOn.pattern h user given request').unify? request input output with
  | none => exact hunify
  | some f =>
    obtain ⟨_, _, hgiven, _⟩ := hp.matched hfields hunify
    obtain ⟨field, hfield, hnone⟩ := hmissing
    have hthere := hgiven field hfield
    rw [hnone] at hthere
    cases hthere

theorem Source.exists_taking {rules : List (Rule TravelWorld)}
    (hrules : List.Forall₂ (fun s rule => s.Known ∧ s.definition.Builds registry rule) all rules)
    {s : Source} (hs : s ∈ earlier) {route : String} (htakes : s.takes? = some route)
    (hrequest : registry.action "Requesting" "request" = .ok request)
    (hroute : input.get? "path" = some (.string route))
    (huser : ∃ user, input.get? "user" = some user ∧ user ≠ .null) (output : Payload) :
    ∃ before rule after, rules = before ++ rule :: after ∧ s.definition.Builds registry rule ∧
      (∀ r ∈ before, r.Idle request input output) ∧
      ∀ r ∈ after, ∃ t ∈ all, t ≠ s ∧ t.Known ∧ t.definition.Builds registry r := by
  obtain ⟨before, rule, after, hsplit, ⟨_, hbuilds⟩, hbefore, hafter⟩ :=
    exists_rule hrules (List.mem_append_left _ hs)
  refine ⟨before, rule, after, hsplit, hbuilds, fun r hr => ?_, hafter⟩
  obtain ⟨t, ht, hother, hknown, hbuilt⟩ := hbefore r hr
  exact idle_of_request ht (fun heq => hother (eq_of_takes? s hs t ht route htakes heq))
    (shape_of_builds hknown hbuilt) hrequest hroute huser

/-- Among rules of all sources, those before the one that passes an accepted request on stay idle,
and that one makes one invocation. -/
theorem exists_passOn {rules : List (Rule TravelWorld)}
    (hrules : List.Forall₂ (fun s rule => s.Known ∧ s.definition.Builds registry rule) Source.all
      rules)
    (hh : h ∈ handlers) (hrequest : registry.action "Requesting" "request" = .ok request)
    (haccepts : h.Accepts input) (output : Payload) :
    ∃ before rule after p f action value, rules = before ++ rule :: after ∧
      registry.action h.concept h.action = .ok action ∧ input.get? "user" = some value ∧
      (∀ r ∈ before, r.Idle request input output) ∧ rule.clauses.whenPatterns = [p] ∧
      p.unify? request input output = some f ∧
      (∀ world, refine rule [f] world = (.frames [f], world)) ∧
      rule.invocations f = [(action, h.passes value input)] ∧
      ∀ r ∈ after, ∃ s ∈ Source.all, s ≠ .passOn h ∧ s.Known ∧ s.definition.Builds registry r := by
  obtain ⟨before, rule, after, hsplit, hbuilds, hbefore, hafter⟩ :=
    Source.exists_taking hrules (Source.passOn_mem_earlier h hh) rfl hrequest haccepts.path
      haccepts.user output
  obtain ⟨user, given, request', action, hp⟩ :=
    passesOn_of_builds (fields_of_handler h hh).1.of_cons hbuilds
  obtain rfl : request' = request := Except.ok.inj (hp.listens.symm.trans hrequest)
  obtain ⟨f, value, hvalue, hunify, hrefine, hinvocations⟩ :=
    hp.fires (fields_of_handler h hh).1 haccepts output
  exact ⟨before, rule, after, _, f, action, value, hsplit, hp.invokes, hvalue, hbefore,
    hp.whenPatterns, hunify, hrefine, hinvocations, hafter⟩

end Travel

end ConceptSync
